/-
**The ends of pipes.**

A reader of a pipe sees the end of the data once the word `write_closed` in the pipe's header is 1, and a
writer learns from `read_closed` that nobody reads.  The words should say whether any process still holds
a descriptor of that end.  Nothing counts the descriptors: closing one of several sets the word, and
overwriting or forgetting the last one does not; and the bridge finds the word from the number of the
descriptor, which `dup2` and the forks change while the pipe stays the same.

Main definitions:

* `PipeEnds.Tracks` — what should hold of the words and the descriptors;
* `PipeEnds.OwnHeader` — a close changes the header of no other pipe;
* `PipeEnds.Keeps` — the condition on an event under which it keeps both.

Main results:

* `PipeEnds.coherent_after` — the condition is exact for one event;
* `PipeEnds.tracks_iff_keeps` — a run keeps the words right **if and only if** all its events meet the
  condition.
-/

import AtuaComputer.Descriptors
import AtuaComputer.Runs

set_option relaxedAutoImplicit false
set_option autoImplicit false

namespace PipeEnds

open Kernel Bridge SharedRefs Runs

/-- An end of the pipe in a slot, as the entries of descriptor tables name it. -/
def pipe (slot : ℕ) (e : End) : ℤ × End := ((pipeRegionStart + slot * pipeSlotSize : ℕ), e)

theorem pipe_injective {s t : ℕ} {e f : End} (h : pipe s e = pipe t f) : s = t ∧ e = f := by
  obtain ⟨hring, rfl⟩ := Prod.mk.inj h
  have hring := Int.natCast_inj.1 hring
  unfold pipeRegionStart pipeSlotSize at hring
  exact ⟨by omega, rfl⟩

/-- The word of each end of each pipe is 1 if and only if no descriptor of any process stands for that
end. -/
def Tracks (k : Kernel.State) : Prop :=
  ∀ b, k.bridge = some b → ∀ slot e, Created b slot →
    (b.words (closedWord slot e) = 1 ↔ ∀ s, pipeAt k s ≠ some (pipe slot e))

/-- The descriptor that a syscall closes, as itself or as the target of a copy. -/
def closedFd : Call → Option Int32
  | .close a | .fsClose a | .pipeClose a => some a
  | .dup2 a b | .dup3 a b _ => if a = b then none else some b
  | _ => none

/-- Closing a descriptor changes the header of no pipe but its own. -/
def OwnHeader (k : Kernel.State) : Event → Kernel.State → Prop
  | .call pid call _, k' =>
    ∀ a, closedFd call = some a → ∀ b b', k.bridge = some b → k'.bridge = some b' →
      ∀ slot, Created b slot → (∀ e, pipeAt k (pid, a.toInt) ≠ some (pipe slot e)) →
        ∀ i < 16, b'.words (pipeRegionStart + slot * pipeSlotSize + i) =
          b.words (pipeRegionStart + slot * pipeSlotSize + i)
  | _, _ => True

/-! ### The condition -/

/-- The request of an event that the bridge carries out. -/
def executed (k : Kernel.State) (ev : Event) : Option (Bridge.State × Request) :=
  match k.bridge, (effectOf k ev).request with
  | some b, some req => if Executes b (fateOf ev) then some (b, req) else none
  | _, _ => none

/-- The pipe end whose word is set in an event. -/
def ended (k : Kernel.State) (ev : Event) : Option (ℤ × End) :=
  match executed k ev with
  | some (_, .pipeClose a) => (endAt (closeTarget a)).map fun x => pipe x.1 x.2
  | _ => none

/-- The slot of the pipe that is made in an event. -/
def made (k : Kernel.State) (ev : Event) : Option ℕ :=
  match executed k ev with
  | some (b, .pipeCreate) => if InMemory b b.nextPipeSlot then some b.nextPipeSlot else none
  | _ => none

/-- No descriptor but the touched ones stands for the end that is closed, every other end that the
touched ones stand for has another descriptor, and the kernel gets the answer about a new pipe. -/
def Keeps (k : Kernel.State) (ev : Event) : Prop :=
  Releases (pipeAt k) ((effectOf k ev).touch.slots k) (ended k ev) ∧
    (made k ev ≠ none → fateOf ev = .answered)

/-! ### Coherence -/

/-- An end whose pipe has been made and whose word is not 1. -/
def Open (b : Bridge.State) (x : ℤ × End) : Prop :=
  ∃ slot e, Created b slot ∧ b.words (closedWord slot e) ≠ 1 ∧ x = pipe slot e

/-- An open end of the kernel's bridge. -/
def Live (k : Kernel.State) (x : ℤ × End) : Prop := ∃ b, k.bridge = some b ∧ Open b x

/-- Every pipe that a descriptor stands for has been made. -/
def Known (k : Kernel.State) : Prop :=
  ∀ s x, pipeAt k s = some x → ∃ b slot e, k.bridge = some b ∧ Created b slot ∧ x = pipe slot e

theorem live_iff_open {k : Kernel.State} {b : Bridge.State} (hb : k.bridge = some b) (x : ℤ × End) :
    Live k x ↔ Open b x := by
  unfold Live
  rw [hb]
  simp

theorem open_pipe_iff {b : Bridge.State} {slot : ℕ} (hslot : Created b slot) (e : End) :
    Open b (pipe slot e) ↔ b.words (closedWord slot e) ≠ 1 := by
  constructor
  · rintro ⟨slot', e', -, hword, hx⟩
    obtain ⟨rfl, rfl⟩ := pipe_injective hx
    exact hword
  · intro hword
    exact ⟨slot, e, hslot, hword, rfl⟩

/-- What closing leaves open. -/
theorem open_pipeClose {b : Bridge.State} (ha : b.alive = true) (fd : Int32) (x : ℤ × End) :
    Open (pipeClose b fd).1 x ↔
      Open b x ∧ ((endAt (closeTarget fd)).map fun y => pipe y.1 y.2) ≠ some x := by
  have htarget : ∀ slot e, ((endAt (closeTarget fd)).map fun y => pipe y.1 y.2) = some (pipe slot e) ↔
      closeTarget fd = closedWord slot e := by
    intro slot e
    rw [← endAt_eq_some, Option.map_eq_some_iff]
    constructor
    · rintro ⟨⟨slot', e'⟩, hend, hx⟩
      obtain ⟨rfl, rfl⟩ := pipe_injective hx
      exact hend
    · intro hend
      exact ⟨(slot, e), hend, rfl⟩
  constructor
  · rintro ⟨slot, e, hslot, hword, rfl⟩
    rw [created_pipeClose] at hslot
    rw [words_pipeClose ha fd hslot] at hword
    split_ifs at hword with ht
    · exact absurd rfl hword
    · exact ⟨⟨slot, e, hslot, hword, rfl⟩, fun h => ht ((htarget slot e).1 h)⟩
  · rintro ⟨⟨slot, e, hslot, hword, rfl⟩, hne⟩
    refine ⟨slot, e, (created_pipeClose b fd slot).2 hslot, ?_, rfl⟩
    rw [words_pipeClose ha fd hslot, if_neg fun ht => hne ((htarget slot e).2 ht)]
    exact hword

/-- What is open after a request for a pipe. -/
theorem open_pipeCreate {b : Bridge.State} (h : Bridge.Wf b) (ha : b.alive = true) (x : ℤ × End) :
    Open (pipeCreate b).1 x ↔
      Open b x ∨ InMemory b b.nextPipeSlot ∧ ∃ e, x = pipe b.nextPipeSlot e := by
  constructor
  · rintro ⟨slot, e, hslot, hword, rfl⟩
    rcases (created_pipeCreate h ha slot).1 hslot with hold | ⟨rfl, hin⟩
    · rw [words_pipeCreate_old h ha hold] at hword
      exact Or.inl ⟨slot, e, hold, hword, rfl⟩
    · exact Or.inr ⟨hin, e, rfl⟩
  · rintro (⟨slot, e, hslot, hword, rfl⟩ | ⟨hin, e, rfl⟩)
    · refine ⟨slot, e, (created_pipeCreate h ha slot).2 (Or.inl hslot), ?_, rfl⟩
      rw [words_pipeCreate_old h ha hslot]
      exact hword
    · refine ⟨_, e, (created_pipeCreate h ha _).2 (Or.inr ⟨rfl, hin⟩), ?_, rfl⟩
      rw [words_pipeCreate_new h ha hin]
      exact Nat.zero_ne_one

theorem tracks_iff_coherent {k : Kernel.State} (hk : Known k) :
    Tracks k ↔ Coherent (pipeAt k) (Live k) := by
  constructor
  · intro ht x
    constructor
    · rintro ⟨b, hb, slot, e, hslot, hword, rfl⟩
      by_contra hnone
      exact hword ((ht b hb slot e hslot).2 fun s hs => hnone ⟨s, hs⟩)
    · rintro ⟨s, hs⟩
      obtain ⟨b, slot, e, hb, hslot, rfl⟩ := hk s x hs
      refine ⟨b, hb, (open_pipe_iff hslot e).2 fun hword => ?_⟩
      exact (ht b hb slot e hslot).1 hword s hs
  · intro hc b hb slot e hslot
    have hlive := (live_iff_open hb (pipe slot e)).trans (open_pipe_iff hslot e)
    constructor
    · intro hword s hs
      exact hlive.1 ((hc _).2 ⟨s, hs⟩) hword
    · intro hnone
      by_contra hword
      obtain ⟨s, hs⟩ := (hc _).1 (hlive.2 hword)
      exact hnone s hs

/-! ### One event -/

theorem special_pipe (name : VirtualFs.Special) : FdKind.pipe? (.special name) = none := rfl

section Step

variable {k : Kernel.State} (hw : Kernel.Wf k) (ev : Event)

include hw

theorem took : Took k (effectOf k ev) (fateOf ev) (after k ev) := took_after hw.nextFd_nonneg ev

/-- The bridge after an event. -/
theorem bridge_after :
    (after k ev).bridge =
      match executed k ev with
      | none => k.bridge
      | some (b, req) => some (serve b req).1 := by
  have h := (took hw ev).bridge
  unfold Requests at h
  rw [h]
  unfold executed
  cases hb : k.bridge with
  | none => cases (effectOf k ev).request <;> rfl
  | some b =>
      cases (effectOf k ev).request with
      | none => rfl
      | some req =>
          simp only [Option.map_some, callBridge]
          split_ifs <;> rfl

omit hw in
theorem executed_eq_some {b : Bridge.State} {req : Request} (h : executed k ev = some (b, req)) :
    k.bridge = some b ∧ (effectOf k ev).request = some req ∧ Executes b (fateOf ev) := by
  unfold executed at h
  split at h
  · next b' req' hb hreq =>
      split_ifs at h with hex
      obtain ⟨rfl, rfl⟩ := Prod.mk.inj (Option.some_inj.1 h)
      exact ⟨hb, hreq, hex⟩
  · cases h

/-- **The open ends after an event.** -/
theorem live_after (x : ℤ × End) :
    Live (after k ev) x ↔
      Live k x ∧ ended k ev ≠ some x ∨ ∃ slot e, made k ev = some slot ∧ x = pipe slot e := by
  have hbridge := bridge_after hw ev
  unfold ended made
  cases hx : executed k ev with
  | none =>
      rw [hx] at hbridge
      simp [Live, hbridge]
  | some br =>
      obtain ⟨b, req⟩ := br
      rw [hx] at hbridge
      obtain ⟨hb, -, halive, -⟩ := executed_eq_some ev hx
      rw [live_iff_open hbridge, live_iff_open hb]
      cases req with
      | fork =>
          have hfork : Open (serve b .fork).1 x ↔ Open b x := Iff.rfl
          simp [hfork]
      | pipeClose a =>
          rw [serve, open_pipeClose halive]
          simp
      | pipeCreate =>
          rw [serve, open_pipeCreate (hw.bridge b hb) halive]
          by_cases hin : InMemory b b.nextPipeSlot
          · simp [hin]
          · simp [hin]

/-- A pipe stays made. -/
theorem created_after {b : Bridge.State} (hb : k.bridge = some b) {slot : ℕ} (hslot : Created b slot) :
    ∃ b', (after k ev).bridge = some b' ∧ Created b' slot := by
  rw [bridge_after hw ev]
  cases hx : executed k ev with
  | none => exact ⟨b, hb, hslot⟩
  | some br =>
      obtain ⟨b₀, req⟩ := br
      obtain ⟨hb₀, -, halive, -⟩ := executed_eq_some ev hx
      rw [hb, Option.some_inj] at hb₀
      subst hb₀
      exact ⟨_, rfl, hslot.serve (hw.bridge b hb) halive req⟩

omit hw in
/-- A pipe is made in the next slot of the bridge. -/
theorem made_eq_some {slot : ℕ} (hm : made k ev = some slot) :
    ended k ev = none ∧ ∃ b pid, k.bridge = some b ∧ b.alive = true ∧ slot = b.nextPipeSlot ∧
      InMemory b slot ∧ executed k ev = some (b, .pipeCreate) ∧
      effectOf k ev = pipeEffect k pid (fateOf ev) := by
  unfold made at hm
  split at hm
  · next b hx =>
      split_ifs at hm with hin
      rw [Option.some_inj] at hm
      subst hm
      obtain ⟨hb, hreq, halive, -⟩ := executed_eq_some ev hx
      obtain ⟨pid, he⟩ := (shape_effectOf k ev).of_pipeCreate hreq
      exact ⟨by rw [ended, hx], b, pid, hb, halive, rfl, hin, hx, he⟩
  · cases hm

/-- The descriptors of a pipe are written only when one is made and the kernel hears of it. -/
theorem made_of_touch {pid readFd writeFd ring : ℤ}
    (ht : (effectOf k ev).touch = .pipe pid readFd writeFd ring) :
    fateOf ev = .answered ∧ ∃ slot, made k ev = some slot := by
  have he := (shape_effectOf k ev).of_pipe ht
  cases hb : k.bridge with
  | none =>
      rw [he] at ht
      simp only [pipeEffect, hb] at ht
      cases ht
  | some b =>
      rw [he, pipeEffect_touch hw hb] at ht
      split_ifs at ht with hc
      obtain ⟨halive, hfate, hin⟩ := hc
      have hreq : (effectOf k ev).request = some .pipeCreate := by
        rw [he]
        rfl
      have hex : Executes b (fateOf ev) := ⟨halive, by rw [hfate]; decide⟩
      have hx : executed k ev = some (b, .pipeCreate) := by
        simp only [executed, hb, hreq, if_pos hex]
      exact ⟨hfate, b.nextPipeSlot, by simp only [made, hx, if_pos hin]⟩

/-- **The descriptors of a new pipe**: those of its two ends. -/
theorem touch_of_made {slot : ℕ} (hm : made k ev = some slot) (hfate : fateOf ev = .answered) :
    ∃ pid, (effectOf k ev).touch =
      .pipe pid (fdOf slot .read) (fdOf slot .write) (pipeRegionStart + slot * pipeSlotSize : ℕ) := by
  obtain ⟨-, b, pid, hb, halive, rfl, hin, -, he⟩ := made_eq_some ev hm
  have hring := ringOffset_eq ((hw.bridge b hb).nextPipeSlot_le halive)
  refine ⟨pid, ?_⟩
  rw [he, pipeEffect_touch hw hb, if_pos ⟨halive, hfate, hin⟩, hring]

/-- What the touched descriptors stand for after a pipe was made: its ends. -/
theorem pipeAt_made {slot : ℕ} (hm : made k ev = some slot) (hfate : fateOf ev = .answered)
    (x : ℤ × End) :
    (∃ s, (effectOf k ev).touch.slots k s ∧ pipeAt (after k ev) s = some x) ↔ ∃ e, x = pipe slot e := by
  obtain ⟨pid, ht⟩ := touch_of_made hw ev hm hfate
  have hne : (fdOf slot .read : ℤ) ≠ fdOf slot .write := by
    simp only [fdOf]
    omega
  have hkind := (took hw ev).kindAt
  rw [ht] at hkind ⊢
  have hread : pipeAt (after k ev) (pid, fdOf slot .read) = some (pipe slot .read) := by
    rw [pipeAt, refs, hkind, Touch.lookup, if_neg (fun h => hne h.2), if_pos ⟨rfl, rfl⟩]
    rfl
  have hwrite : pipeAt (after k ev) (pid, fdOf slot .write) = some (pipe slot .write) := by
    rw [pipeAt, refs, hkind, Touch.lookup, if_pos ⟨rfl, rfl⟩]
    rfl
  constructor
  · rintro ⟨s, rfl | rfl, hx⟩
    · rw [hread, Option.some_inj] at hx
      exact ⟨.read, hx.symm⟩
    · rw [hwrite, Option.some_inj] at hx
      exact ⟨.write, hx.symm⟩
  · rintro ⟨e, rfl⟩
    cases e with
    | read => exact ⟨_, Or.inl rfl, hread⟩
    | write => exact ⟨_, Or.inr rfl, hwrite⟩

/-- An event that writes no new pipe makes no new reference to one. -/
theorem pipe_copied (hpipe : ∀ pid readFd writeFd ring,
      (effectOf k ev).touch ≠ .pipe pid readFd writeFd ring)
    (s : ℤ × ℤ) (x : ℤ × End) (hs : (effectOf k ev).touch.slots k s)
    (hx : pipeAt (after k ev) s = some x) :
    HeldOutside (pipeAt k) ((effectOf k ev).touch.slots k) x := by
  have hopen : ∀ pid vfsFd isDir, (effectOf k ev).touch = .open pid vfsFd isDir →
      (openKind vfsFd isDir).pipe? = none := by
    intro pid vfsFd isDir _
    cases isDir <;> rfl
  exact refs_copied (took hw ev) (shape_effectOf k ev) hopen
    (fun pid readFd writeFd ring ht => absurd ht (hpipe pid readFd writeFd ring)) s x hs hx

/-- The descriptors that an event does not touch. -/
theorem pipeAt_untouched (s : ℤ × ℤ) (hs : ¬ (effectOf k ev).touch.slots k s) :
    pipeAt (after k ev) s = pipeAt k s :=
  refs_outside special_pipe (took hw ev) s hs

/-- **Every event keeps descriptors to pipes that have been made.** -/
theorem known_after (hk : Known k) : Known (after k ev) := by
  have hold : ∀ s x, pipeAt k s = some x →
      ∃ b slot e, (after k ev).bridge = some b ∧ Created b slot ∧ x = pipe slot e := by
    intro s x hx
    obtain ⟨b, slot, e, hb, hslot, rfl⟩ := hk s x hx
    obtain ⟨b', hb', hslot'⟩ := created_after hw ev hb hslot
    exact ⟨b', slot, e, hb', hslot', rfl⟩
  intro s x hx
  by_cases hs : (effectOf k ev).touch.slots k s
  · by_cases hpipe : ∃ pid readFd writeFd ring, (effectOf k ev).touch = .pipe pid readFd writeFd ring
    · obtain ⟨pid, readFd, writeFd, ring, ht⟩ := hpipe
      obtain ⟨hfate, slot, hm⟩ := made_of_touch hw ev ht
      obtain ⟨e, rfl⟩ := (pipeAt_made hw ev hm hfate x).1 ⟨s, hs, hx⟩
      obtain ⟨-, b, -, hb, halive, rfl, hin, hex, -⟩ := made_eq_some ev hm
      have hbridge := bridge_after hw ev
      rw [hex] at hbridge
      exact ⟨_, _, e, hbridge, (created_pipeCreate (hw.bridge b hb) halive _).2 (Or.inr ⟨rfl, hin⟩), rfl⟩
    · have hheld := pipe_copied hw ev
        (fun pid readFd writeFd ring ht => hpipe ⟨pid, readFd, writeFd, ring, ht⟩) s x hs hx
      obtain ⟨s', hs'⟩ := hheld.held
      exact hold s' x hs'
  · rw [pipeAt_untouched hw ev s hs] at hx
    exact hold s x hx

omit hw in
/-- No descriptor stands for a pipe that is made later. -/
theorem not_known_made (hk : Known k) {slot : ℕ} (hm : made k ev = some slot) (s : ℤ × ℤ) (e : End) :
    pipeAt k s ≠ some (pipe slot e) := by
  intro hs
  obtain ⟨-, b, -, hb, -, rfl, -⟩ := made_eq_some ev hm
  obtain ⟨b', slot', e', hb', hslot', hx⟩ := hk s _ hs
  rw [hb, Option.some_inj] at hb'
  obtain ⟨rfl, -⟩ := pipe_injective hx
  rw [hb'] at hslot'
  exact Nat.lt_irrefl _ hslot'.1

/-- **The condition is exact for one event.** -/
theorem coherent_after (hk : Known k) (hc : Coherent (pipeAt k) (Live k)) :
    Coherent (pipeAt (after k ev)) (Live (after k ev)) ↔ Keeps k ev := by
  have hout := pipeAt_untouched hw ev
  have hlive := live_after hw ev
  unfold Keeps
  cases hm : made k ev with
  | none =>
      -- without a new pipe an event closes an end or copies descriptors
      have hpipe : ∀ pid readFd writeFd ring, (effectOf k ev).touch ≠ .pipe pid readFd writeFd ring := by
        intro pid readFd writeFd ring ht
        obtain ⟨-, slot, hslot⟩ := made_of_touch hw ev ht
        rw [hm] at hslot
        cases hslot
      have hlive' : ∀ x, Live (after k ev) x ↔ Live k x ∧ ended k ev ≠ some x := by
        intro x
        rw [hlive x, hm]
        simp
      rw [coherent_release hc hout hlive' (pipe_copied hw ev hpipe)]
      simp
  | some slot =>
      have hend := (made_eq_some ev hm).1
      have hnew := not_known_made ev hk hm
      rw [hend]
      by_cases hfate : fateOf ev = .answered
      · have hcame := pipeAt_made hw ev hm hfate
        have hlive' : ∀ x, Live (after k ev) x ↔ Live k x ∨
            ∃ s, (effectOf k ev).touch.slots k s ∧ pipeAt (after k ev) s = some x := by
          intro x
          rw [hlive x, hm, hend, hcame]
          simp
        rw [coherent_start hc hout hlive']
        constructor
        · intro h
          refine ⟨⟨fun x hx => (Option.some_ne_none x hx.symm).elim, fun s x hs hx _ => ?_⟩,
            fun _ => hfate⟩
          rcases h s x hs hx with hheld | hnewx
          · exact hheld
          · obtain ⟨e, rfl⟩ := (hcame x).1 hnewx
            exact absurd hx (hnew s e)
        · rintro ⟨h, -⟩ s x hs hx
          exact Or.inl (h.keeps s x hs hx (Option.some_ne_none x).symm)
      · -- the pipe is made, but no descriptor stands for its ends
        refine iff_of_false (fun hc' => ?_) (fun h => hfate (h.2 (Option.some_ne_none slot)))
        have hopen : Live (after k ev) (pipe slot .read) := by
          rw [hlive, hm]
          exact Or.inr ⟨slot, .read, rfl, rfl⟩
        obtain ⟨s, hs⟩ := (hc' _).1 hopen
        have hpipe : ∀ pid readFd writeFd ring,
            (effectOf k ev).touch ≠ .pipe pid readFd writeFd ring :=
          fun pid readFd writeFd ring ht => hfate (made_of_touch hw ev ht).1
        by_cases htouch : (effectOf k ev).touch.slots k s
        · obtain ⟨s', hs'⟩ := (pipe_copied hw ev hpipe s _ htouch hs).held
          exact hnew s' .read hs'
        · rw [hout s htouch] at hs
          exact hnew s .read hs

end Step

/-! ### Headers -/

theorem hangUp_cases (k : Kernel.State) (pid : ℤ) (a : Int32) :
    hangUp k pid a = none ∨ hangUp k pid a = some (.pipeClose a) := by
  unfold hangUp
  cases pipeAt k (pid, a.toInt) with
  | none => exact Or.inl rfl
  | some x => exact Or.inr rfl

theorem replaceEffect_closes (k : Kernel.State) (pid : ℤ) (a b : Int32) (request : Option Request)
    (hrequest : request = none ∨ request = some (.pipeClose b)) :
    let e := replaceEffect k pid a b request
    (∀ s, e.touch.slots k s → s = (pid, b.toInt)) ∧ (e.request = none ∨ e.request = some (.pipeClose b)) := by
  unfold replaceEffect
  split_ifs
  · exact ⟨fun s hs => hs.elim, Or.inl rfl⟩
  · cases kindAt k pid a.toInt with
    | none => exact ⟨fun s hs => hs.elim, Or.inl rfl⟩
    | some kind => exact ⟨fun s hs => hs.1, hrequest⟩

/-- A call that closes a descriptor touches no other, and asks for the closing of no other. -/
theorem closedFd_effect (k : Kernel.State) (pid : ℤ) {call : Call} {a : Int32} (fate : Fate)
    (h : closedFd call = some a) :
    let e := effectOf k (.call pid call fate)
    (∀ s, e.touch.slots k s → s = (pid, a.toInt)) ∧
      (e.request = none ∨ e.request = some (.pipeClose a)) := by
  cases hp : k.processTable.get? pid with
  | none =>
      rw [effectOf_noProc hp]
      exact ⟨fun s hs => hs.elim, Or.inl rfl⟩
  | some p =>
      rw [effectOf_call hp]
      cases call with
      | close a' =>
          obtain rfl := Option.some_inj.1 h
          exact ⟨fun s hs => hs, hangUp_cases k pid a'⟩
      | fsClose a' =>
          obtain rfl := Option.some_inj.1 h
          exact ⟨fun s hs => hs, Or.inl rfl⟩
      | pipeClose a' =>
          obtain rfl := Option.some_inj.1 h
          exact ⟨fun s hs => hs, hangUp_cases k pid a'⟩
      | dup2 i b =>
          simp only [closedFd] at h
          split_ifs at h
          obtain rfl := Option.some_inj.1 h
          exact replaceEffect_closes k pid i b none (Or.inl rfl)
      | dup3 i b c =>
          simp only [closedFd] at h
          split_ifs at h
          obtain rfl := Option.some_inj.1 h
          exact replaceEffect_closes k pid i b _ (hangUp_cases k pid b)
      | _ => cases h

/-- Headers lie at multiples of 16, also where the address has wrapped around. -/
theorem ringOffset_mod (slot : ℕ) : ringOffset slot % 16 = 0 := by
  rw [ringOffset, Nat.mod_mod_of_dvd _ (by decide : 16 ∣ 2 ^ 32)]
  unfold pipeRegionStart pipeSlotSize
  omega

/-- The words of headers that closing can set are those of the ends. -/
theorem closeTarget_header {fd : Int32} {slot i : ℕ} (hi : i < 16)
    (h : closeTarget fd = pipeRegionStart + slot * pipeSlotSize + i) :
    ∃ e, pipeRegionStart + slot * pipeSlotSize + i = closedWord slot e := by
  simp only [closeTarget] at h
  have hmod := ringOffset_mod ((fd - 100) / 2).toUInt32.toNat
  generalize ringOffset ((fd - 100) / 2).toUInt32.toNat = ring at h hmod
  simp only [closedWord, pipeRegionStart, pipeSlotSize] at h ⊢
  split_ifs at h
  · exact ⟨.write, by simp only; omega⟩
  · exact ⟨.read, by simp only; omega⟩

/-- **An event that meets the condition closes no end of another pipe.** -/
theorem ownHeader_after {k : Kernel.State} (hw : Kernel.Wf k) (hc : Coherent (pipeAt k) (Live k))
    {ev : Event} (hkeep : Keeps k ev) : OwnHeader k ev (after k ev) := by
  cases ev with
  | call pid call fate =>
      intro a ha b b' hb hb' slot hslot hown i hi
      obtain ⟨htouch, hrequest⟩ := closedFd_effect k pid fate ha
      rw [bridge_after hw] at hb'
      cases hx : executed k (.call pid call fate) with
      | none =>
          rw [hx, hb, Option.some_inj] at hb'
          rw [hb']
      | some br =>
          obtain ⟨b₀, req⟩ := br
          obtain ⟨hb₀, hreq, halive, -⟩ := executed_eq_some _ hx
          rw [hb, Option.some_inj] at hb₀
          subst hb₀
          rw [hx, Option.some_inj] at hb'
          subst hb'
          obtain rfl : req = .pipeClose a := by
            rcases hrequest with hnone | hsome
            · rw [hnone] at hreq
              cases hreq
            · exact (Option.some_inj.1 (hsome.symm.trans hreq)).symm
          by_cases ht : pipeRegionStart + slot * pipeSlotSize + i = closeTarget a
          · obtain ⟨e, he⟩ := closeTarget_header hi ht.symm
            have hend : ended k (.call pid call fate) = some (pipe slot e) := by
              simp only [ended, hx, ← ht, he, endAt_closedWord, Option.map_some]
            have hword : b.words (closedWord slot e) = 1 := by
              by_contra hne
              obtain ⟨s, hs⟩ := (hc _).1 ((live_iff_open hb _).2 ((open_pipe_iff hslot e).2 hne))
              have hin : (effectOf k (.call pid call fate)).touch.slots k s := by
                by_contra hout
                exact hkeep.1.ends _ hend ⟨s, hout, hs⟩
              rw [htouch s hin] at hs
              exact hown e hs
            rw [he, hword, serve, words_pipeClose halive a hslot, if_pos (ht.symm.trans he)]
          · exact storeWord_words_ne ht
  | _ => trivial

/-! ### Runs -/

theorem known_of_starts {k : Kernel.State} (hk : Starts k) : Known k := by
  intro s x hx
  rw [pipeAt, refs, kindAt_of_noProc (hk.noProc s.1)] at hx
  cases hx

theorem tracks_of_starts {k : Kernel.State} (hk : Starts k) : Tracks k := by
  intro b hb slot e hslot
  have hlt := hslot.1
  rw [(hk.bridge b hb).nextPipeSlot] at hlt
  exact absurd hlt (Nat.not_lt_zero slot)

/-- **A run keeps the words of all pipes right, and every close keeps to its own pipe, exactly when all
events meet the condition.** -/
theorem tracks_iff_keeps {k : Kernel.State} {tr : List (Event × Kernel.State)} (hk : Starts k)
    (hrun : IsRun Step k tr) :
    Throughout Tracks k tr ∧ EachStep OwnHeader k tr ↔ Meets Keeps k tr := by
  have hkeep : ∀ s ev s', Kernel.Wf s ∧ Known s → Step s ev s' → Kernel.Wf s' ∧ Known s' := by
    rintro s ev s' ⟨hw, hkn⟩ rfl
    exact ⟨wf_after hw ev, known_after hw ev hkn⟩
  have hstep : ∀ s ev s', (Kernel.Wf s ∧ Known s) ∧ Tracks s → Step s ev s' →
      ((Kernel.Wf s' ∧ Known s') ∧ Tracks s' ↔ Keeps s ev) := by
    rintro s ev s' ⟨⟨hw, hkn⟩, ht⟩ rfl
    have hkn' := known_after hw ev hkn
    rw [tracks_iff_coherent hkn', ← coherent_after hw ev hkn ((tracks_iff_coherent hkn).1 ht)]
    exact and_iff_right ⟨wf_after hw ev, hkn'⟩
  have hstart : Kernel.Wf k ∧ Known k := ⟨wf_of_starts hk, known_of_starts hk⟩
  have htracks : Throughout Tracks k tr ↔ Meets Keeps k tr := by
    rw [← throughout_iff_meets hstep ⟨hstart, tracks_of_starts hk⟩ hrun]
    exact throughout_and_iff (throughout_of_isRun hkeep hstart hrun)
  have hown : ∀ s ev s', (Kernel.Wf s ∧ Known s) ∧ Tracks s → Keeps s ev → Step s ev s' →
      ((Kernel.Wf s' ∧ Known s') ∧ Tracks s') ∧ OwnHeader s ev s' := by
    intro s ev s' hs hG hev
    refine ⟨(hstep s ev s' hs hev).2 hG, ?_⟩
    rw [hev]
    exact ownHeader_after hs.1.1 ((tracks_iff_coherent hs.1.2).1 hs.2) hG
  rw [htracks]
  exact and_iff_left_of_imp (eachStep_of_meets hown ⟨hstart, tracks_of_starts hk⟩ hrun)

/-- A process makes a pipe, duplicates its write end, and closes the descriptor it got first. -/
def closedCopy : List Event :=
  [.registerWorker 1, .registerMemory 1, .call 1 .pipeCreate .answered, .call 1 (.dup 101) .answered,
    .call 1 (.close 101) .answered]

/-- The write end counts as closed although the duplicate stands for it. -/
theorem not_tracks_closedCopy :
    ¬ Throughout Tracks bootedWithBridge (trace after bootedWithBridge closedCopy) := by
  intro h
  have hend := h.final
  rw [final_trace] at hend
  generalize hk : closedCopy.foldl after bootedWithBridge = k at hend
  have hcopy : pipeAt k (1, 3) = some (pipe 0 .write) := by
    rw [← hk]
    decide
  have hword : (k.bridge.map fun b => b.words (closedWord 0 .write)) = some 1 := by
    rw [← hk]
    decide
  have hmade : (k.bridge.map fun b => decide (b.nextPipeSlot = 1 ∧ b.byteLength = 2 ^ 24)) = some true := by
    rw [← hk]
    decide
  obtain ⟨b, hb, hone⟩ := Option.map_eq_some_iff.1 hword
  rw [hb, Option.map_some, Option.some_inj, decide_eq_true_eq] at hmade
  have hslot : Created b 0 := by
    rw [Created, InMemory, hmade.1, hmade.2]
    decide
  exact (hend b hb 0 .write hslot).1 hone (1, 3) hcopy

theorem not_keeps_closedCopy :
    ¬ Meets Keeps bootedWithBridge (trace after bootedWithBridge closedCopy) :=
  fun h => not_tracks_closedCopy
    ((tracks_iff_keeps starts_bootedWithBridge (isRun_trace after bootedWithBridge closedCopy)).2 h).1

theorem not_tracks : ¬ ∀ (k : Kernel.State) (tr : List (Event × Kernel.State)), Starts k → IsRun Step k tr →
    Throughout Tracks k tr ∧ EachStep OwnHeader k tr :=
  fun h => not_tracks_closedCopy
    (h bootedWithBridge _ starts_bootedWithBridge (isRun_trace after bootedWithBridge closedCopy)).1

end PipeEnds
