/-
**Several writers on one pipe.**

After a fork two processes hold the write end of a pipe, and their workers write its ring side by side.  A
writer reserves nothing: between its load of the position and its store of the next one, another writer may
load the same position, and the two bytes go into one cell.  Between two bytes of one call, another call may
write its own.

Main definitions:

* `PipeRing.Contiguous` — the bytes of a small call lie together in the stream;
* `PipeRing.NoMixing` — nobody writes between two bytes of a small call.

Main results:

* `PipeRing.atomic_of_meets` — **without races and mixing, small calls are atomic and no byte is lost**.
-/

import AtuaComputer.PipeRing

set_option relaxedAutoImplicit false
set_option autoImplicit false

namespace PipeRing

open Runs RingBuffer

section Writers

variable {W : Type}

/-- The call that wrote a byte. -/
def Tagged.id (t : Tagged W) : W × ℕ := (t.writer, t.call)

/-- The bytes of a call of at most 4096 bytes lie together in the stream: what lies between two of them is
of the same call. -/
def Contiguous (s : State W) : Prop :=
  ∀ (i j k : ℕ) (t u t' : Tagged W), i ≤ j → j ≤ k → s.accepted[i]? = some t → s.accepted[j]? = some u →
    s.accepted[k]? = some t' → t'.small = true → t.id = t'.id → u.id = t.id

/-- Small calls are atomic: the ring is a queue, no byte that a call counts is lost, and the bytes of a
small call lie together. -/
structure Atomic [DecidableEq W] (s : State W) : Prop where
  fifo : Fifo s
  counted : Counted s
  contiguous : Contiguous s

/-- When a call of at most 4096 bytes stores the position again, the last byte of the stream is its own. -/
def NoMixing (s : State W) : Event W → Prop
  | .stepWrite w =>
    match (s.writers w).pc with
    | .stored bytes written _ _ =>
      bytes.length ≤ 4096 → 0 < written → s.accepted.getLast?.map Tagged.id = some (w, (s.writers w).call)
    | _ => True
  | _ => True

/-- A byte that continues the call of the last byte, or begins a new call, leaves the small calls together. -/
theorem Contiguous.push {s s' : State W} (h : Contiguous s) {x : Tagged W}
    (hacc : s'.accepted = s.accepted ++ [x])
    (hx : x.small = true → (∀ t ∈ s.accepted, t.id ≠ x.id) ∨
      ∃ t, s.accepted.getLast? = some t ∧ t.id = x.id ∧ t.small = true) : Contiguous s' := by
  intro i j k t u t' hij hjk ht hu ht' hsmall hid
  rw [hacc] at ht hu ht'
  have hklt : k < s.accepted.length + 1 := by
    have hk := (List.getElem?_eq_some_iff.1 ht').1
    rwa [List.length_append, List.length_singleton] at hk
  rcases Nat.lt_or_ge k s.accepted.length with hk | hk
  · rw [List.getElem?_append_left (by omega)] at ht hu ht'
    exact h i j k t u t' hij hjk ht hu ht' hsmall hid
  obtain rfl : k = s.accepted.length := by omega
  rw [List.getElem?_concat_length, Option.some_inj] at ht'
  subst ht'
  rcases Nat.lt_or_ge i s.accepted.length with hi | hi
  · rw [List.getElem?_append_left hi] at ht
    -- an earlier byte of the same call: the call goes on, and its last byte is the last of the stream
    rcases hx hsmall with hnew | ⟨l, hl, hlid, hlsmall⟩
    · exact absurd hid (hnew t (List.mem_of_getElem? ht))
    · rcases Nat.lt_or_ge j s.accepted.length with hj | hj
      · rw [List.getElem?_append_left hj] at hu
        rw [List.getLast?_eq_getElem?] at hl
        exact h i j _ t u l hij (by omega) ht hu hl hlsmall (hid.trans hlid.symm)
      · obtain rfl : j = s.accepted.length := by omega
        rw [List.getElem?_concat_length, Option.some_inj] at hu
        rw [← hu, hid]
  · obtain rfl : i = s.accepted.length := by omega
    obtain rfl : j = s.accepted.length := by omega
    rw [ht] at hu
    rw [Option.some_inj.1 hu]

theorem Contiguous.congr {s s' : State W} (h : Contiguous s) (hacc : s'.accepted = s.accepted) :
    Contiguous s' := by
  unfold Contiguous
  rw [hacc]
  exact h

/-- An access of a writer changes the stream only when it stores the position. -/
theorem stepWrite_accepted [DecidableEq W] (s : State W) (w : W) :
    (stepWrite s w).accepted = s.accepted ∨
      ∃ bytes written wp seen, (s.writers w).pc = .stored bytes written wp seen ∧
        (stepWrite s w).accepted =
          s.accepted ++ [⟨w, (s.writers w).call, decide (bytes.length ≤ 4096), bytes.getD written 0⟩] := by
  unfold stepWrite
  split
  · exact .inl rfl
  · left
    split <;> rfl
  · left
    split <;> rfl
  · exact .inl rfl
  · rename_i bytes written wp seen hpc
    exact .inr ⟨bytes, written, wp, seen, hpc, rfl⟩

end Writers

section Runs

variable {W : Type} [DecidableEq W] {s : State W}

/-- The bytes of a call in progress are found among those it counts. -/
theorem Counted.ne_of_zero (h : Counted s) {w : W} {bytes : List UInt8}
    (hp : (s.writers w).pc.progress = some (bytes, 0)) {t : Tagged W} (ht : t ∈ s.accepted) :
    t.id ≠ (w, (s.writers w).call) := by
  intro hid
  have hnil := h w bytes 0 hp
  rw [List.take_zero, callBytes, List.map_eq_nil_iff, List.filter_eq_nil_iff] at hnil
  obtain ⟨hw, hc⟩ : t.writer = w ∧ t.call = (s.writers w).call := by simpa [Tagged.id] using hid
  exact hnil t ht (decide_eq_true ⟨hw, hc⟩)

theorem contiguous_stepWrite (h : Contiguous s) (hc : Counted s) (hn : Numbered s) (w : W)
    (hmix : NoMixing s (.stepWrite w)) : Contiguous (stepWrite s w) := by
  rcases stepWrite_accepted s w with hsame | ⟨bytes, written, wp, seen, hpc, hacc⟩
  · exact h.congr hsame
  have hp : (s.writers w).pc.progress = some (bytes, written) := by rw [hpc]; rfl
  refine h.push hacc fun hsmall => ?_
  cases written with
  | zero => exact .inl fun t ht => hc.ne_of_zero hp ht
  | succ k =>
    simp only [NoMixing, hpc] at hmix
    obtain ⟨t, hlast, hid⟩ := Option.map_eq_some_iff.1 (hmix (of_decide_eq_true hsmall) (Nat.succ_pos k))
    obtain ⟨htw, htc⟩ : t.writer = w ∧ t.call = (s.writers w).call := by simpa [Tagged.id] using hid
    refine .inr ⟨t, hlast, hid, ?_⟩
    subst htw
    obtain ⟨-, hsize⟩ := hn t (List.mem_of_getLast? hlast)
    rw [hsize _ _ hp htc]
    exact hsmall

theorem contiguous_after {ev : Event W} (h : Contiguous s) (hc : Counted s) (hn : Numbered s)
    (hmix : NoMixing s ev) : Contiguous (after s ev) := by
  cases ev with
  | callWrite w call =>
    refine h.congr ?_
    show (callWrite s w call).accepted = s.accepted
    unfold callWrite
    split <;> rfl
  | stepWrite w => exact contiguous_stepWrite h hc hn w hmix
  | callRead call => exact h.congr (callRead_frame s call).1
  | stepRead => exact h.congr (stepRead_frame s).1
  | close =>
    have hacc : (after s .close).accepted = s.accepted := rfl
    exact h.congr hacc

/-- The invariant of a ring with many writers. -/
structure Shared (s : State W) : Prop where
  inv : Inv s
  counted : Counted s
  numbered : Numbered s
  contiguous : Contiguous s

theorem shared_of_starts (hs : Starts s) : Shared s := by
  obtain ⟨hc, hn⟩ := counted_of_starts hs
  refine ⟨inv_of_starts hs, hc, hn, ?_⟩
  intro i j k t u t' _ _ ht
  rw [hs.accepted] at ht
  cases ht

theorem shared_after {ev : Event W} (h : Shared s) (hrace : NoRace s ev) (hmix : NoMixing s ev) :
    Shared (after s ev) := by
  have hafter : Counted (after s ev) ∧ Numbered (after s ev) := counted_after h.counted h.numbered h.inv
  obtain ⟨hc, hn⟩ := hafter
  exact ⟨inv_after h.inv hrace, hc, hn, contiguous_after h.contiguous h.counted h.numbered hmix⟩

theorem Shared.atomic (h : Shared s) : Atomic s :=
  ⟨h.inv.fifo, h.counted, h.contiguous⟩

/-- **Several writers.**  In every run in which no writer stores between another one's load of the position
and its store, and nobody writes between two bytes of a small call, the small calls are atomic, no byte that
a call counts is lost or delivered twice, and none is overwritten in the ring. -/
theorem atomic_of_meets {tr : List (Event W × State W)} (hs : Starts s) (hrun : IsRun Step s tr)
    (hmeets : Meets (fun s ev => NoRace s ev ∧ NoMixing s ev) s tr) :
    Throughout (Atomic (W := W)) s tr ∧ EachStep KeepsUnread s tr := by
  have hstep : ∀ (s : State W) ev s', Shared s → (NoRace s ev ∧ NoMixing s ev) → Step s ev s' → Shared s' := by
    rintro s ev s' h ⟨hrace, hmix⟩ rfl
    exact shared_after h hrace hmix
  constructor
  · exact (throughout_of_meets hstep (shared_of_starts hs) hrun hmeets).mono fun s h => h.atomic
  · refine eachStep_of_meets (fun s ev s' h hG hs' => ⟨hstep s ev s' h hG hs', ?_⟩) (shared_of_starts hs) hrun
      hmeets
    exact keepsUnread h.inv hG.1 s'

/-- One writer after the other. -/
def inTurn : List (Event Bool) :=
  [.callWrite true (.write [1, 2]), .stepWrite true, .stepWrite true, .stepWrite true, .stepWrite true,
    .stepWrite true, .stepWrite true, .stepWrite true, .stepWrite true, .callWrite false (.writev [[3]]),
    .stepWrite false, .stepWrite false, .stepWrite false, .stepWrite false]

theorem atomic_of_meets_inTurn :
    Throughout (Atomic (W := Bool)) fresh (trace after fresh inTurn) ∧
      EachStep KeepsUnread fresh (trace after fresh inTurn) := by
  refine atomic_of_meets starts_fresh (isRun_trace _ _ _) ?_
  exact ⟨⟨trivial, trivial⟩, ⟨trivial, trivial⟩, ⟨trivial, trivial⟩, ⟨rfl, trivial⟩,
    ⟨⟨rfl, rfl⟩, fun _ hpos => absurd hpos (by decide)⟩, ⟨trivial, trivial⟩, ⟨trivial, trivial⟩, ⟨rfl, trivial⟩,
    ⟨⟨rfl, rfl⟩, fun _ _ => rfl⟩, ⟨trivial, trivial⟩, ⟨trivial, trivial⟩, ⟨trivial, trivial⟩, ⟨rfl, trivial⟩,
    ⟨⟨rfl, rfl⟩, fun _ hpos => absurd hpos (by decide)⟩, trivial⟩

/-- Two writers load the same position. -/
def samePosition : List (Event Bool) :=
  [.callWrite true (.write [1]), .callWrite false (.write [2]), .stepWrite true, .stepWrite false,
    .stepWrite true, .stepWrite false, .stepWrite true, .stepWrite false, .stepWrite true, .stepWrite false]

/-- Both count their byte, and one of the two has overwritten the other. -/
theorem lost_byte_samePosition :
    Starts (fresh : State Bool) ∧ IsRun Step fresh (trace after fresh samePosition) ∧
      ¬ (Throughout (Atomic (W := Bool)) fresh (trace after fresh samePosition) ∧
        EachStep KeepsUnread fresh (trace after fresh samePosition)) := by
  refine ⟨starts_fresh, isRun_trace _ _ _, ?_⟩
  rintro ⟨hall, -⟩
  have hlast := hall.final.fifo.unread 0 1 (by decide) (by decide)
  exact absurd hlast (by decide)

end Runs

end PipeRing
