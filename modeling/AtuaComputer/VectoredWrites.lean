/-
**Vectored writes of the guest.**

Blink's `writev` and `sendmsg` send the buffers of their vector one after the other, each with a call of its
own.  A call may take a part of its buffer only, when the ring of the pipe is full, and the loops go on with
the next buffer all the same: if the reader has made room in the meantime, the stream has a hole.  And a
buffer that cannot be read ends the loops with an error, whatever was sent before it.

Main definitions:

* `VectoredWrites.after` — the ring with a guest that sends vectors into it, or messages to a socket;
* `VectoredWrites.Kept` — what was sent is a prefix of the buffers, as long as the result;
* `VectoredWrites.Orderly` — nothing is sent behind a hole, and no error comes after a byte.

Main results:

* `VectoredWrites.kept_of_meets` — **when every vectored write sends a prefix**.
-/

import AtuaComputer.PipeContract
import Mathlib.Data.List.Infix

set_option relaxedAutoImplicit false
set_option autoImplicit false

namespace VectoredWrites

open Runs PipeRing PipeContract

/-! ### Calls -/

/-- An entry of a vector: whether it can be read itself, whether `SchlepR` gets at its buffer, and the
bytes of the buffer. -/
structure Iovec where
  found : Bool
  readable : Bool
  bytes : List UInt8

/-- `len` as a `size_t` or an `int` of the engine -/
def Iovec.count (v : Iovec) : ℕ := v.bytes.length % 2 ^ 32

/-- What is handed on. -/
def Iovec.buf (v : Iovec) : List UInt8 := v.bytes.take v.count

/-- Where the bytes go: `pipe_write` into a ring of the worker, `socket_send` of the main worker, which
posts a copy, or an import that refuses every call, as the trap to the kernel does (`ENOSYS`). -/
inductive Channel where
  | ring
  | socket
  | refused (error : Int32) (negative : error.toInt < 0)

/-- The function, and whether `sendmsg` can read the header of the message. -/
inductive Op where
  | pwritev2
  | sendmsg (header : Bool)

/-- A call of the guest. -/
structure Call where
  op : Op
  channel : Channel
  readOnly : Bool
  iov : List Iovec

/-- The concatenation of the buffers. -/
def Call.concat (call : Call) : List UInt8 := call.iov.flatMap Iovec.bytes

/-! ### Steps -/

/-- Where the guest is: at the head of the loop with `total` bytes sent, in the call for the buffer of `v`,
or at the end with the result.  `start` is the length of the stream when the call began, and `short` says
whether a call has taken less than its buffer. -/
inductive Pc where
  | idle
  | scan (call : Call) (start : ℕ) (rest : List Iovec) (total : ℤ) (short : Bool)
  | sending (call : Call) (start : ℕ) (v : Iovec) (rest : List Iovec) (total : ℤ) (short : Bool)
  | returned (call : Call) (start : ℕ) (result : ℤ)
  | trapped

/-- The ring, the bytes of the messages to the socket, and the guest. -/
structure State where
  ring : PipeRing.State Unit
  posted : List UInt8
  pc : Pc

/-- The stream of a channel. -/
def out (s : State) : Channel → List UInt8
  | .ring => stream s.ring
  | .socket => s.posted
  | .refused _ _ => []

/-- What a call has sent. -/
def sent (s : State) (call : Call) (start : ℕ) : List UInt8 := (out s call.channel).drop start

/-- The way to the loop.  An empty vector of `writev` takes the way of other descriptors, which only looks
at the access mode. -/
def enter (call : Call) (start : ℕ) : Pc :=
  match call.op with
  | .sendmsg header => if header then .scan call start call.iov 0 false else .returned call start (-1)
  | .pwritev2 =>
    if call.iov.isEmpty then .returned call start (if call.readOnly then -1 else 0)
    else .scan call start call.iov 0 false

/-- What the loop does with the answer `n` of a call. -/
def answer (call : Call) (start : ℕ) (v : Iovec) (rest : List Iovec) (total : ℤ) (short : Bool)
    (n : Int32) : Pc :=
  if n.toInt ≤ 0 then .returned call start total
  else .scan call start rest (total + n.toInt) (short || decide (n.toInt < v.bytes.length))

/-- `SchlepR` does not get at the entry, or not at its buffer; a size of zero counts as such. -/
def Iovec.fails (v : Iovec) : Bool :=
  !v.found || !v.bytes.isEmpty && (!v.readable || v.count == 0)

/-- The head of the loop. -/
def stepScan (s : State) (call : Call) (start : ℕ) (rest : List Iovec) (total : ℤ) (short : Bool) : State :=
  match rest with
  | [] => { s with pc := .returned call start total }
  | v :: rest =>
    if v.fails then { s with pc := .returned call start (-1) }
    else if v.bytes.isEmpty then { s with pc := .scan call start rest total short }
    else
      match call.channel with
      | .ring =>
        { s with
          ring := callWrite s.ring () (.write v.buf)
          pc := .sending call start v rest total short }
      | .socket =>
        -- the view of a negative length throws
        if (Int32.ofNat v.count).toInt < 0 then { s with pc := .trapped }
        else
          { s with
            posted := s.posted ++ v.buf
            pc := answer call start v rest total short (Int32.ofNat v.count) }
      | .refused error _ => { s with pc := answer call start v rest total short error }

/-- The next step of the guest. -/
def stepGuest (s : State) : State :=
  match s.pc with
  | .scan call start rest total short => stepScan s call start rest total short
  | .sending call start v rest total short =>
    match writeReturned s.ring with
    | none => { s with ring := stepWrite s.ring () }
    | some (_, n) => { s with ring := stepWrite s.ring (), pc := answer call start v rest total short n }
  | _ => s

/-- The start of `SysPwritev2` or `SysSendmsg`. -/
def begin (s : State) (call : Call) : State :=
  match s.pc with
  | .idle | .returned _ _ _ => { s with pc := enter call (out s call.channel).length }
  | _ => s

/-- What happens: the guest makes a call and takes its steps, the reader takes its own, and the bridge sets
`write_closed`. -/
inductive Event where
  | begin (call : Call)
  | guest
  | callRead (call : ReadCall)
  | stepRead
  | close

/-- The state after an event. -/
def after (s : State) : Event → State
  | .begin call => begin s call
  | .guest => stepGuest s
  | .callRead call => { s with ring := callRead s.ring call }
  | .stepRead => { s with ring := stepRead s.ring }
  | .close => { s with ring := PipeRing.after s.ring .close }

/-- The step relation. -/
def Step (s : State) (ev : Event) (s' : State) : Prop := s' = after s ev

/-- Any ring that its invariant allows, with nobody writing, and an idle guest. -/
structure Starts (s : State) : Prop where
  alone : Alone s.ring
  writer : (s.ring.writers ()).pc = .idle
  guest : s.pc = .idle

/-! ### Prefixes -/

/-- What a call that has returned has sent: a prefix of its buffers, as long as it says, or nothing at all
and an error. -/
def KeptBy (s : State) (call : Call) (start : ℕ) (result : ℤ) : Prop :=
  (result = -1 ∧ sent s call start = []) ∨
    (sent s call start <+: call.concat ∧ ((sent s call start).length : ℤ) = result)

/-- The guest's call is one of these. -/
def Kept (s : State) : Prop :=
  ∀ call start result, s.pc = .returned call start result → KeptBy s call start result

/-- No byte is sent behind a buffer that was cut short, no unreadable entry comes after a byte, and a call
that returns has taken less than 2³¹ bytes. -/
def Orderly (s : State) (ev : Event) : Prop :=
  ev = .guest →
    match s.pc with
    | .scan call _ (v :: _) total short =>
      if v.fails then total = 0 else call.channel matches .socket → v.bytes ≠ [] → short = false
    | .sending _ _ _ _ _ short =>
      ∀ bytes written, (s.ring.writers ()).pc.progress = some (bytes, written) →
        (∀ wp seen, (s.ring.writers ()).pc = .stored bytes written wp seen → short = false) ∧
          (writeReturned s.ring ≠ none → written < 2 ^ 31)
    | _ => True

/-! ### The invariant -/

/-- The buffers `done` have been sent, the last ones perhaps only in part. -/
structure Done (before : List UInt8) (done : List Iovec) (total : ℤ) (short : Bool) : Prop where
  isPrefix : before <+: done.flatMap Iovec.bytes
  whole : short = false → before = done.flatMap Iovec.bytes
  total : total = before.length

/-- What the guest knows. -/
def GuestInv (s : State) : Prop :=
  match s.pc with
  | .idle | .trapped => (s.ring.writers ()).pc = .idle
  | .scan call start rest total short =>
    (s.ring.writers ()).pc = .idle ∧ start ≤ (out s call.channel).length ∧
      ∃ done, call.iov = done ++ rest ∧ Done (sent s call start) done total short
  | .sending call start v rest total short =>
    call.channel = .ring ∧ start ≤ (out s call.channel).length ∧
      ∃ done before written, call.iov = done ++ v :: rest ∧ Done before done total short ∧
        (s.ring.writers ()).pc.progress = some (v.buf, written) ∧ written ≤ v.count ∧
        sent s call start = before ++ v.buf.take written ∧ (short = true → written = 0)
  | .returned call start result =>
    (s.ring.writers ()).pc = .idle ∧ start ≤ (out s call.channel).length ∧ KeptBy s call start result

/-- The invariant. -/
structure Inv (s : State) : Prop where
  alone : Alone s.ring
  guest : GuestInv s

theorem inv_of_starts {s : State} (h : Starts s) : Inv s := by
  refine ⟨h.alone, ?_⟩
  unfold GuestInv
  rw [h.guest]
  exact h.writer

theorem Inv.kept {s : State} (h : Inv s) : Kept s := by
  intro call start result hpc
  have hg := h.guest
  unfold GuestInv at hg
  rw [hpc] at hg
  exact hg.2.2

theorem out_congr {s s' : State} (hacc : s'.ring.accepted = s.ring.accepted) (hpost : s'.posted = s.posted)
    (channel : Channel) : out s' channel = out s channel := by
  cases channel with
  | ring =>
    show stream s'.ring = stream s.ring
    rw [stream, hacc, stream]
  | socket => exact hpost
  | refused error negative => rfl

/-- The reader changes nothing that the guest knows. -/
theorem GuestInv.congr {s s' : State} (h : GuestInv s) (hacc : s'.ring.accepted = s.ring.accepted)
    (hwr : s'.ring.writers = s.ring.writers) (hpost : s'.posted = s.posted) (hpc : s'.pc = s.pc) :
    GuestInv s' := by
  have hout : out s' = out s := funext fun channel => out_congr hacc hpost channel
  unfold GuestInv KeptBy sent at h ⊢
  rw [hpc, hwr, hout]
  exact h

/-! ### The loop -/

theorem Done.nil : Done [] [] 0 false :=
  ⟨List.nil_prefix, fun _ => rfl, rfl⟩

theorem Done.prefix_concat {before : List UInt8} {done rest : List Iovec} {total : ℤ} {short : Bool}
    {call : Call} (h : Done before done total short) (hiov : call.iov = done ++ rest) :
    before <+: call.concat := by
  refine h.isPrefix.trans ?_
  rw [Call.concat, hiov, List.flatMap_append]
  exact List.prefix_append _ _

/-- An entry without bytes. -/
theorem Done.skip {before : List UInt8} {done : List Iovec} {total : ℤ} {short : Bool} {v : Iovec}
    (h : Done before done total short) (hv : v.bytes = []) : Done before (done ++ [v]) total short := by
  have hsame : (done ++ [v]).flatMap Iovec.bytes = done.flatMap Iovec.bytes := by simp [hv]
  refine ⟨?_, ?_, h.total⟩
  · rw [hsame]
    exact h.isPrefix
  · rw [hsame]
    exact h.whole

/-- A call has taken the first `written` bytes of the next buffer, and none behind a hole. -/
theorem Done.push {before : List UInt8} {done : List Iovec} {total : ℤ} {short : Bool} {v : Iovec}
    {written : ℕ} (h : Done before done total short) (hzero : short = true → written = 0)
    (hle : written ≤ v.count) :
    Done (before ++ v.buf.take written) (done ++ [v]) (total + written)
      (short || decide ((written : ℤ) < v.bytes.length)) := by
  have hcount : v.count ≤ v.bytes.length := Nat.mod_le _ _
  have htake : v.buf.take written = v.bytes.take written := by
    rw [Iovec.buf, List.take_take, Nat.min_eq_left hle]
  have hflat : (done ++ [v]).flatMap Iovec.bytes = done.flatMap Iovec.bytes ++ v.bytes := by simp
  rw [htake]
  refine ⟨?_, ?_, ?_⟩
  · rw [hflat]
    cases short with
    | true =>
      rw [hzero rfl, List.take_zero, List.append_nil]
      exact h.isPrefix.trans (List.prefix_append _ _)
    | false =>
      rw [h.whole rfl]
      exact (List.prefix_append_right_inj _).2 (List.take_prefix _ _)
  · intro hshort
    obtain ⟨hs, hlen⟩ : short = false ∧ v.bytes.length ≤ written := by simpa using hshort
    rw [hflat, h.whole hs, List.take_of_length_le hlen]
  · rw [List.length_append, List.length_take, h.total]
    omega

/-- What the loop makes of an answer keeps what the guest knows. -/
theorem guestInv_answer {s : State} {call : Call} {start : ℕ} {v : Iovec} {rest done : List Iovec}
    {before : List UInt8} {total : ℤ} {short : Bool} (written : ℕ) {n : Int32}
    (hpc : s.pc = answer call start v rest total short n)
    (hidle : (s.ring.writers ()).pc = .idle) (hstart : start ≤ (out s call.channel).length)
    (hiov : call.iov = done ++ v :: rest) (hdone : Done before done total short)
    (hzero : short = true → written = 0) (hle : written ≤ v.count)
    (hsent : sent s call start = before ++ v.buf.take written)
    (hn : n.toInt = written ∨ n.toInt ≤ 0 ∧ written = 0) : GuestInv s := by
  unfold GuestInv
  rw [hpc, answer]
  by_cases hneg : n.toInt ≤ 0
  · obtain rfl : written = 0 := by omega
    rw [List.take_zero, List.append_nil] at hsent
    rw [if_pos hneg]
    refine ⟨hidle, hstart, .inr ⟨?_, ?_⟩⟩
    · rw [hsent]
      exact hdone.prefix_concat hiov
    · rw [hsent, hdone.total]
  · have hcount : n.toInt = written := by omega
    rw [if_neg hneg]
    refine ⟨hidle, hstart, done ++ [v], by rw [hiov, List.append_assoc, List.singleton_append], ?_⟩
    rw [hsent, hcount]
    exact hdone.push hzero hle

/-! ### One step -/

/-- An access of the writer ends its call with its count, or publishes the next byte, or does neither. -/
theorem stepWrite_cases {r : PipeRing.State Unit} (h : PipeRing.Inv r) {bytes : List UInt8} {written : ℕ}
    (hp : (r.writers ()).pc.progress = some (bytes, written)) :
    (writeReturned r = some (bytes, Int32.ofNat written) ∧ ((stepWrite r ()).writers ()).pc = .idle ∧
        stream (stepWrite r ()) = stream r) ∨
      (writeReturned r = none ∧ ((stepWrite r ()).writers ()).pc.progress = some (bytes, written) ∧
        stream (stepWrite r ()) = stream r) ∨
      (writeReturned r = none ∧ (∃ wp seen, (r.writers ()).pc = .stored bytes written wp seen) ∧
        ((stepWrite r ()).writers ()).pc.progress = some (bytes, written + 1) ∧
        stream (stepWrite r ()) = stream r ++ [bytes.getD written 0] ∧ written < bytes.length) := by
  have hw := h.writers ()
  cases hpc : (r.writers ()).pc with
  | idle =>
    rw [hpc] at hp
    cases hp
  | loop b k =>
    rw [hpc] at hp
    obtain ⟨rfl, rfl⟩ : b = bytes ∧ k = written := by simpa [WriterPc.progress] using hp
    by_cases hlt : k < b.length
    · right
      left
      refine ⟨?_, ?_, ?_⟩
      · simp [writeReturned, hpc, hlt]
      · simp [stepWrite, hpc, hlt, setPc, WriterPc.progress]
      · simp [stepWrite, hpc, hlt, setPc, stream]
    · left
      refine ⟨?_, ?_, ?_⟩
      · simp [writeReturned, hpc, hlt]
      · simp [stepWrite, hpc, hlt, setPc]
      · simp [stepWrite, hpc, hlt, setPc, stream]
  | loaded b k wp seen =>
    rw [hpc] at hp
    obtain ⟨rfl, rfl⟩ : b = bytes ∧ k = written := by simpa [WriterPc.progress] using hp
    by_cases hfull : (wp + 1) % pipeBufSize = r.readPos
    · left
      refine ⟨?_, ?_, ?_⟩
      · simp [writeReturned, hpc, hfull]
      · simp [stepWrite, hpc, hfull, setPc]
      · simp [stepWrite, hpc, hfull, setPc, stream]
    · right
      left
      refine ⟨?_, ?_, ?_⟩
      · simp [writeReturned, hpc, hfull]
      · simp [stepWrite, hpc, hfull, setPc, WriterPc.progress]
      · simp [stepWrite, hpc, hfull, setPc, stream]
  | checked b k wp seen =>
    rw [hpc] at hp
    obtain ⟨rfl, rfl⟩ : b = bytes ∧ k = written := by simpa [WriterPc.progress] using hp
    right
    left
    refine ⟨?_, ?_, ?_⟩
    · simp [writeReturned, hpc]
    · simp [stepWrite, hpc, setPc, WriterPc.progress]
    · simp [stepWrite, hpc, setPc, stream]
  | stored b k wp seen =>
    rw [hpc] at hp hw
    obtain ⟨rfl, rfl⟩ : b = bytes ∧ k = written := by simpa [WriterPc.progress] using hp
    right
    right
    refine ⟨?_, ⟨wp, seen, rfl⟩, ?_, ?_, hw.1⟩
    · simp [writeReturned, hpc]
    · simp [stepWrite, hpc, setPc, WriterPc.progress]
    · simp [stepWrite, hpc, setPc, stream]

/-- The writer's call starts. -/
theorem callWrite_idle {r : PipeRing.State Unit} (h : (r.writers ()).pc = .idle) (buf : List UInt8) :
    ((callWrite r () (.write buf)).writers ()).pc.progress = some (buf, 0) ∧
      stream (callWrite r () (.write buf)) = stream r := by
  simp [callWrite, h, WriterPc.progress, WriteCall.bytes, stream]

theorem length_buf (v : Iovec) : v.buf.length = v.count := by
  rw [Iovec.buf, List.length_take]
  exact Nat.min_eq_left (Nat.mod_le _ _)

theorem Iovec.count_lt (v : Iovec) : v.count < 2 ^ 32 := Nat.mod_lt _ (by decide)

/-- A count that is not negative as an `int` is the number of bytes. -/
theorem toInt_ofNat_of_nonneg {n : ℕ} (hn : n < 2 ^ 32) (h : ¬ (Int32.ofNat n).toInt < 0) :
    (Int32.ofNat n).toInt = n := by
  have hsize : Int32.size = 4294967296 := rfl
  rw [Int32.toInt_ofNat', Int.bmod_def, hsize] at h ⊢
  omega

/-- The head of the loop. -/
theorem inv_stepScan {s : State} (h : Inv s) {call : Call} {start : ℕ} {rest : List Iovec} {total : ℤ}
    {short : Bool} (hpc : s.pc = .scan call start rest total short) (hord : Orderly s .guest) :
    Inv (stepScan s call start rest total short) := by
  have hg := h.guest
  unfold GuestInv at hg
  rw [hpc] at hg
  obtain ⟨hidle, hstart, done, hiov, hdone⟩ := hg
  have hcond := hord rfl
  rw [hpc] at hcond
  cases rest with
  | nil =>
    refine ⟨h.alone, hidle, hstart, .inr ⟨?_, hdone.total.symm⟩⟩
    exact hdone.prefix_concat hiov
  | cons v rest =>
    unfold stepScan
    dsimp only at hcond ⊢
    cases hfails : v.fails with
    | true =>
      -- an error: nothing has been sent so far
      rw [if_pos rfl]
      rw [hfails, if_pos rfl] at hcond
      have hnil : sent s call start = [] := by
        have htotal := hdone.total
        rw [hcond] at htotal
        exact List.length_eq_zero_iff.1 (by omega)
      exact ⟨h.alone, hidle, hstart, .inl ⟨rfl, hnil⟩⟩
    | false =>
      rw [if_neg (by decide)]
      rw [hfails, if_neg (by decide)] at hcond
      by_cases hempty : v.bytes = []
      · rw [if_pos (by rw [hempty]; rfl)]
        refine ⟨h.alone, hidle, hstart, done ++ [v], ?_, hdone.skip hempty⟩
        rw [hiov, List.append_assoc, List.singleton_append]
      · have hne : v.bytes.isEmpty = false := by
          cases hb : v.bytes with
          | nil => exact absurd hb hempty
          | cons b bs => rfl
        rw [if_neg (by rw [hne]; decide)]
        cases hch : call.channel with
        | ring =>
          obtain ⟨hprog, hstream⟩ := callWrite_idle hidle v.buf
          refine ⟨@alone_after _ (.callWrite () (.write v.buf)) h.alone, ?_⟩
          have hout : out { s with
              ring := callWrite s.ring () (.write v.buf), pc := Pc.sending call start v rest total short }
              call.channel = out s call.channel := by
            rw [hch]
            exact hstream
          unfold GuestInv
          refine ⟨hch, ?_, done, sent s call start, 0, hiov, hdone, hprog, Nat.zero_le _, ?_, fun _ => rfl⟩
          · rw [hout]
            exact hstart
          · rw [sent, hout, List.take_zero, List.append_nil]
            rfl
        | refused error negative =>
          refine ⟨h.alone, ?_⟩
          refine guestInv_answer 0 rfl hidle hstart hiov hdone (fun _ => rfl) (Nat.zero_le _) ?_
            (.inr ⟨by omega, rfl⟩)
          rw [List.take_zero, List.append_nil]
          rfl
        | socket =>
          have hwhole : short = false := hcond (by rw [hch]) hempty
          dsimp only
          split
          · exact ⟨h.alone, hidle⟩
          · rename_i hneg
            refine ⟨h.alone, ?_⟩
            have hout : out { s with
                posted := s.posted ++ v.buf
                pc := answer call start v rest total short (Int32.ofNat v.count) } call.channel =
                out s call.channel ++ v.buf := by
              rw [hch]
              rfl
            refine guestInv_answer v.count rfl hidle ?_ hiov hdone ?_ (Nat.le_refl _) ?_
              (.inl (toInt_ofNat_of_nonneg v.count_lt hneg))
            · rw [hout, List.length_append]
              omega
            · intro hshort
              rw [hwhole] at hshort
              cases hshort
            · rw [sent, hout, List.drop_append_of_le_length hstart, ← length_buf, List.take_length]
              rfl

/-- The accesses of a call that is sending. -/
theorem inv_stepSending {s : State} (h : Inv s) {call : Call} {start : ℕ} {v : Iovec} {rest : List Iovec}
    {total : ℤ} {short : Bool} (hpc : s.pc = .sending call start v rest total short)
    (hord : Orderly s .guest) : Inv (stepGuest s) := by
  have hg := h.guest
  unfold GuestInv at hg
  rw [hpc] at hg
  obtain ⟨hch, hstart, done, before, written, hiov, hdone, hprog, hle, hsent, hzero⟩ := hg
  have hcond := hord rfl
  rw [hpc] at hcond
  obtain ⟨hstored, hsmall⟩ := hcond v.buf written hprog
  have halone : Alone (stepWrite s.ring ()) := @alone_after _ (.stepWrite ()) h.alone
  rw [hch] at hstart
  rw [sent, hch] at hsent
  unfold stepGuest
  rw [hpc]
  rcases stepWrite_cases h.alone.inv hprog with ⟨hret, hidle, hsame⟩ | ⟨hret, hprog', hsame⟩ |
    ⟨hret, ⟨wp, seen, hst⟩, hprog', hpush, hlt⟩
  · -- the call has ended with its count
    rw [hret]
    refine ⟨halone, ?_⟩
    have hout : ∀ pc, out ⟨stepWrite s.ring (), s.posted, pc⟩ call.channel = out s .ring := by
      rw [hch]
      exact fun _ => hsame
    have hwritten : written < 2 ^ 31 := hsmall (by rw [hret]; simp)
    refine guestInv_answer written rfl hidle ?_ hiov hdone hzero hle ?_
      (.inl ((toInt_ofNat_iff written).2 hwritten))
    · rw [hout]
      exact hstart
    · rw [sent, hout]
      exact hsent
  · -- nothing is published
    rw [hret]
    refine ⟨halone, ?_⟩
    have hout : ∀ pc, out ⟨stepWrite s.ring (), s.posted, pc⟩ call.channel = out s .ring := by
      rw [hch]
      exact fun _ => hsame
    refine ⟨hch, ?_, done, before, written, hiov, hdone, hprog', hle, ?_, hzero⟩
    · rw [hout]
      exact hstart
    · rw [sent, hout]
      exact hsent
  · -- a byte is published; by the guard nothing in front of it was cut short
    rw [hret]
    refine ⟨halone, ?_⟩
    have hwhole : short = false := hstored wp seen hst
    have hout : ∀ pc, out ⟨stepWrite s.ring (), s.posted, pc⟩ call.channel =
        out s .ring ++ [v.buf.getD written 0] := by
      rw [hch]
      exact fun _ => hpush
    have hle' : written + 1 ≤ v.count := by rwa [← length_buf]
    refine ⟨hch, ?_, done, before, written + 1, hiov, hdone, hprog', hle', ?_, ?_⟩
    · rw [hout, List.length_append]
      omega
    · rw [sent, hout, List.drop_append_of_le_length hstart, hsent, List.append_assoc,
        List.getD_eq_getElem?_getD, List.getElem?_eq_getElem hlt, Option.getD_some, List.take_append_getElem hlt]
    · intro hshort
      rw [hwhole] at hshort
      cases hshort

theorem inv_stepGuest {s : State} (h : Inv s) (hord : Orderly s .guest) : Inv (stepGuest s) := by
  cases hpc : s.pc with
  | idle =>
    unfold stepGuest
    rw [hpc]
    exact h
  | scan call start rest total short =>
    unfold stepGuest
    rw [hpc]
    exact inv_stepScan h hpc hord
  | sending call start v rest total short => exact inv_stepSending h hpc hord
  | returned call start result =>
    unfold stepGuest
    rw [hpc]
    exact h
  | trapped =>
    unfold stepGuest
    rw [hpc]
    exact h

/-- A call begins with nothing sent. -/
theorem guestInv_enter {s : State} (hidle : (s.ring.writers ()).pc = .idle) (call : Call) :
    GuestInv { s with pc := enter call (out s call.channel).length } := by
  have hsent : ∀ pc, sent ⟨s.ring, s.posted, pc⟩ call (out s call.channel).length = [] :=
    fun pc => List.drop_length
  have hscan : GuestInv { s with pc := .scan call (out s call.channel).length call.iov 0 false } := by
    refine ⟨hidle, Nat.le_refl _, [], rfl, ?_⟩
    rw [hsent]
    exact Done.nil
  have herror : GuestInv { s with pc := .returned call (out s call.channel).length (-1) } :=
    ⟨hidle, Nat.le_refl _, .inl ⟨rfl, hsent _⟩⟩
  have hzero : GuestInv { s with pc := .returned call (out s call.channel).length 0 } := by
    refine ⟨hidle, Nat.le_refl _, .inr ?_⟩
    rw [hsent]
    exact ⟨List.nil_prefix, rfl⟩
  unfold enter
  split
  · split
    · exact hscan
    · exact herror
  · split
    · split
      · exact herror
      · exact hzero
    · exact hscan

theorem inv_begin {s : State} (h : Inv s) (call : Call) : Inv (begin s call) := by
  have hg := h.guest
  unfold GuestInv at hg
  unfold begin
  split
  · rename_i hpc
    rw [hpc] at hg
    exact ⟨h.alone, guestInv_enter hg call⟩
  · rename_i hpc
    rw [hpc] at hg
    exact ⟨h.alone, guestInv_enter hg.1 call⟩
  · exact h

/-- **Every orderly step keeps the invariant.** -/
theorem inv_after {s : State} {ev : Event} (h : Inv s) (hord : Orderly s ev) : Inv (after s ev) := by
  cases ev with
  | begin call => exact inv_begin h call
  | guest => exact inv_stepGuest h hord
  | callRead call =>
    obtain ⟨hacc, hwr, -⟩ := callRead_frame s.ring call
    exact ⟨@alone_after _ (.callRead call) h.alone, h.guest.congr hacc hwr rfl rfl⟩
  | stepRead =>
    obtain ⟨hacc, hwr, -⟩ := stepRead_frame s.ring
    exact ⟨@alone_after _ .stepRead h.alone, h.guest.congr hacc hwr rfl rfl⟩
  | close => exact ⟨@alone_after _ .close h.alone, h.guest.congr rfl rfl rfl rfl⟩

/-! ### Runs -/

/-- **Vectored writes.**  In every run in which no byte is sent behind a buffer that was cut short, no
unreadable entry comes after a byte, and no single buffer sends 2³¹ bytes, each call has sent a prefix of its
buffers that is as long as its result, or has sent nothing and failed. -/
theorem kept_of_meets {s : State} {tr : List (Event × State)} (hs : Starts s) (hrun : IsRun Step s tr)
    (hmeets : Meets Orderly s tr) : Throughout Kept s tr := by
  have hstep : ∀ s ev s', Inv s → Orderly s ev → Step s ev s' → Inv s' := by
    rintro s ev s' h hord rfl
    exact inv_after h hord
  exact (throughout_of_meets hstep (inv_of_starts hs) hrun hmeets).mono fun s h => h.kept

/-- A byte that has been lying in the ring for long. -/
def old : Tagged Unit := ⟨(), 1, false, 0⟩

/-- A ring with room for one byte, and 65534 bytes that nobody has read. -/
def almostFull : PipeRing.State Unit :=
  { (PipeRing.fresh : PipeRing.State Unit) with
    writePos := 65534
    writers := fun _ => ⟨.idle, 1⟩
    accepted := List.replicate 65534 old }

theorem length_accepted_almostFull : almostFull.accepted.length = 65534 := List.length_replicate

theorem alone_almostFull : Alone almostFull where
  inv :=
    { writePos := by
        rw [length_accepted_almostFull]
        rfl
      readPos := rfl
      isPrefix := List.nil_prefix
      room := by
        rw [length_accepted_almostFull]
        decide
      window := by
        intro k a _ hk
        have hmem : a ∈ stream almostFull := List.mem_of_getElem? hk
        simp only [stream, almostFull, List.map_replicate, List.mem_replicate] at hmem
        exact hmem.2.symm
      writers := fun _ => trivial
      reader := trivial }
  solo := trivial
  counted := by
    intro w bytes written hp
    cases hp
  numbered := by
    intro t ht
    obtain rfl : t = old := (List.mem_replicate.1 ht).2
    refine ⟨Nat.le_refl _, fun bytes written hp => ?_⟩
    cases hp

/-- The guest with the ring that is almost full. -/
def waiting : State := ⟨almostFull, [], .idle⟩

theorem starts_waiting : Starts waiting := ⟨alone_almostFull, rfl, rfl⟩

/-- `writev` of two buffers into a pipe -/
def twoBuffers : Call := ⟨.pwritev2, .ring, false, [⟨true, true, [1, 2]⟩, ⟨true, true, [3]⟩]⟩

/-- The second byte of the first buffer finds the ring full, then the reader takes a byte, and the second
buffer is sent. -/
def hole : List Event :=
  [.begin twoBuffers, .guest, .guest, .guest, .guest, .guest, .guest, .guest, .callRead (.read 1), .stepRead,
    .stepRead, .stepRead, .stepRead, .guest, .guest, .guest, .guest, .guest, .guest, .guest]

/-- The stream goes on with the bytes 1 and 3. -/
theorem hole_in_stream :
    Starts waiting ∧ IsRun Step waiting (trace after waiting hole) ∧
      ¬ Throughout Kept waiting (trace after waiting hole) := by
  refine ⟨starts_waiting, isRun_trace _ _ _, ?_⟩
  intro hall
  have hlast := hall.final
  rw [final_trace] at hlast
  have hpc : (hole.foldl after waiting).pc = .returned twoBuffers (stream almostFull).length 2 := rfl
  have hstream : stream (hole.foldl after waiting).ring = stream almostFull ++ [1, 3] := by
    have hacc : (hole.foldl after waiting).ring.accepted =
        almostFull.accepted ++ [⟨(), 2, true, 1⟩] ++ [⟨(), 3, true, 3⟩] := rfl
    rw [stream, hacc, List.append_assoc, List.map_append]
    rfl
  have hsent : sent (hole.foldl after waiting) twoBuffers (stream almostFull).length = [1, 3] := by
    show (stream (hole.foldl after waiting).ring).drop _ = _
    rw [hstream, List.drop_left]
  rcases hlast _ _ _ hpc with ⟨hneg, -⟩ | ⟨hpre, -⟩
  · exact absurd hneg (by decide)
  · rw [hsent] at hpre
    exact absurd hpre (by decide)

/-- A call is orderly as long as nothing was cut short before it. -/
theorem orderly_sending {s : State} {call : Call} {start : ℕ} {v : Iovec} {rest : List Iovec} {total : ℤ}
    {bytes : List UInt8} {written : ℕ} (hpc : s.pc = .sending call start v rest total false)
    (hp : (s.ring.writers ()).pc.progress = some (bytes, written)) (hlt : written < 2 ^ 31) :
    Orderly s .guest := by
  intro _
  rw [hpc]
  intro b k hk
  obtain ⟨rfl, rfl⟩ : bytes = b ∧ written = k := by simpa [hp] using hk
  exact ⟨fun _ _ _ => rfl, fun _ => hlt⟩

/-- `writev` of three buffers, one of them without bytes -/
def threeBuffers : Call :=
  ⟨.pwritev2, .ring, false, [⟨true, true, [1]⟩, ⟨true, false, []⟩, ⟨true, true, [2, 3]⟩]⟩

/-- The first buffer fills the ring, the reader takes a byte before the third one is sent, and the last byte finds
the ring full again. -/
def vector : List Event :=
  [.begin threeBuffers, .guest, .guest, .callRead (.read 1), .guest, .stepRead, .guest, .stepRead, .guest, .stepRead,
    .guest, .stepRead, .guest, .guest, .guest, .guest, .guest, .guest, .guest, .guest, .guest]

theorem kept_of_meets_vector :
    (vector.foldl after waiting).pc = .returned threeBuffers (stream almostFull).length 2 ∧
      Throughout Kept waiting (trace after waiting vector) := by
  refine ⟨rfl, kept_of_meets starts_waiting (isRun_trace _ _ _) ?_⟩
  have hzero : 0 < 2 ^ 31 := by decide
  have hone : 1 < 2 ^ 31 := by decide
  exact ⟨nofun, fun _ _ _ => rfl, orderly_sending rfl rfl hzero, nofun, orderly_sending rfl rfl hzero, nofun,
    orderly_sending rfl rfl hzero, nofun, orderly_sending rfl rfl hzero, nofun, orderly_sending rfl rfl hone, nofun,
    fun _ _ _ => rfl, fun _ _ _ => rfl, orderly_sending rfl rfl hzero, orderly_sending rfl rfl hzero,
    orderly_sending rfl rfl hzero, orderly_sending rfl rfl hzero, orderly_sending rfl rfl hone,
    orderly_sending rfl rfl hone, fun _ => trivial, trivial⟩

end VectoredWrites
