/-
**Where the pipes lie in the bridge's memory.**

The ring of requests, the data of the requests and the pipes share the memory of the bridge.  `create` gives
every pipe the next 65552 bytes, without a bound and without taking a slot back, and traps when the header of
the slot is out of the memory.  The data of a slot are not touched then, and the memory can end among them.
`close` has only the number of a descriptor.  It computes the slot and the end from it, whether or not a pipe
has that number: signed division takes 99 to the slot of 100, and below 99 the slot is negative and becomes
a large `usize`.

Main definitions:

* `PipeSlots.World` — the bridge, with the replies of the creates that succeeded;
* `PipeSlots.LaidOut` — a request for a pipe gives it bytes of its own, and a request to close one sets
  the word of the number;
* `PipeSlots.Fits` — the slot is not cut by the end of the memory, and the number is one of a pipe.

Main results:

* `PipeSlots.throughout_inv` — the replies of a bridge that runs are those of the slots it has counted;
* `PipeSlots.laidOut_step_iff` — the requests that keep the layout;
* `PipeSlots.eachStep_laidOut_iff` — **the runs that keep it**.
-/

import AtuaComputer.Bridge
import AtuaComputer.Runs

set_option relaxedAutoImplicit false
set_option autoImplicit false

namespace PipeSlots

open Bridge Runs

/-! ### Regions -/

/-- The bytes from an address on. -/
structure Region where
  start : ℤ
  size : ℕ

namespace Region

def Has (r : Region) (a : ℤ) : Prop := r.start ≤ a ∧ a < r.start + r.size

/-- No byte is in both. -/
def Apart (r r' : Region) : Prop := ∀ a, r.Has a → ¬ r'.Has a

/-- Every byte of the region is in a memory of the length. -/
def Within (r : Region) (byteLength : ℕ) : Prop := 0 ≤ r.start ∧ r.start + r.size ≤ byteLength

theorem Apart.symm {r r' : Region} (h : r.Apart r') : r'.Apart r :=
  fun a h' hr => h a hr h'

theorem apart_of_le {r r' : Region} (h : r.start + r.size ≤ r'.start) : r.Apart r' := by
  intro a hr hr'
  have hlt : a < r'.start := Int.lt_of_lt_of_le hr.2 h
  exact absurd hr'.1 (Int.not_le.2 hlt)

end Region

/-! ### The layout -/

/-- `RING_OFFSET`, with `RING_TOTAL_SIZE`: a header of 16 bytes and 32 slots of 64 -/
def requestRing : Region := ⟨65536, 16 + 32 * 64⟩

/-- `DATA_OFFSET`, with `DATA_SIZE` -/
def dataRegion : Region := ⟨65536 + (16 + 32 * 64), 1024 * 1024⟩

/-- The pipes begin where the data end. -/
theorem dataRegion_end : dataRegion.start + dataRegion.size = pipeRegionStart := rfl

/-- The ring region that a create returned. -/
def ringRegion (p : Reply) : Region := ⟨p.r2.toInt, pipeSlotSize⟩

/-- The number that a create returned for an end. -/
def numberOf (p : Reply) : End → Int32
  | .read => p.val
  | .write => p.r1

/-- `write_closed` or `read_closed` in the ring region that a create returned. -/
def closedWordOf (p : Reply) : End → ℤ
  | .write => p.r2.toInt + 8
  | .read => p.r2.toInt + 12

/-- The bridge, and the replies of the creates that succeeded, the oldest first. -/
structure World where
  bridge : State
  made : List Reply

/-- What happens: the bridge serves a request, its memory grows by some pages, or a worker stores a word in
it. -/
inductive Event where
  | request (req : Request)
  | grow (pages : ℕ)
  | store (addr value : ℕ)

/-- The replies after a request. -/
def record (made : List Reply) (b : State) (reply : Reply) : Request → List Reply
  | .pipeCreate => if b.alive then made ++ [reply] else made
  | .pipeClose _ | .fork => made

/-- One step.  A memory does not grow over its maximum, and a bridge that has trapped serves no more. -/
def after (w : World) : Event → World
  | .request req =>
    if w.bridge.alive then
      ⟨(serve w.bridge req).1, record w.made (serve w.bridge req).1 (serve w.bridge req).2 req⟩
    else w
  | .grow pages =>
    if w.bridge.byteLength + pages * 65536 ≤ 2 ^ 24 then
      { w with bridge := { w.bridge with byteLength := w.bridge.byteLength + pages * 65536 } }
    else w
  | .store addr value =>
    { w with bridge := { w.bridge with words := Function.update w.bridge.words addr value } }

/-- A bridge that has made no pipe, with a memory of whole pages. -/
structure Starts (w : World) : Prop where
  alive : w.bridge.alive = true
  nextPipeSlot : w.bridge.nextPipeSlot = 0
  pages : 65536 ∣ w.bridge.byteLength
  byteLength_le : w.bridge.byteLength ≤ 2 ^ 24
  made : w.made = []

/-! ### What is asked of a request -/

/-- No number that `create` computes for a slot is too large for its type. -/
structure CreateExact (slot : ℕ) : Prop where
  next : slot + 1 < 2 ^ 32
  numbers : slot * 2 + 101 < 2 ^ 31
  ring : pipeRegionStart + slot * pipeSlotSize + 12 < 2 ^ 31

/-- No number that `close` computes for a descriptor is out of the range of its type. -/
structure CloseExact (fd : Int32) : Prop where
  sub : -2 ^ 31 ≤ fd.toInt - 100
  slotBase : 0 ≤ (fd.toInt - 100).tdiv 2
  ring : pipeRegionStart + ((fd.toInt - 100).tdiv 2).toNat * pipeSlotSize + 12 < 2 ^ 32

/-- A pipe that was made lies in the memory, apart from the ring, the data and all pipes before it. -/
structure Placed (w : World) (p : Reply) (byteLength : ℕ) : Prop where
  within : (ringRegion p).Within byteLength
  apart_ring : (ringRegion p).Apart requestRing
  apart_data : (ringRegion p).Apart dataRegion
  apart_made : ∀ q ∈ w.made, (ringRegion p).Apart (ringRegion q)

/-- The request is answered with an error, and changes nothing. -/
def Rejects (w : World) (fd : Int32) (w' : World) : Prop :=
  (pipeClose w.bridge fd).2.err ≠ 0 ∧ w'.bridge = w.bridge

/-- The number is one that a create returned, and the word of its end is all that changes. -/
def SetsItsWord (w : World) (fd : Int32) (w' : World) : Prop :=
  ∃ p ∈ w.made, ∃ e : End, fd = numberOf p e ∧
    w'.bridge = { w.bridge with words := Function.update w.bridge.words (closedWordOf p e).toNat 1 }

/-- The law of the layout, for a step from `w` to `w'`. -/
def LaidOut (w : World) (ev : Event) (w' : World) : Prop :=
  w.bridge.alive = true →
    match ev with
    | .request .pipeCreate =>
      CreateExact w.bridge.nextPipeSlot ∧
        (w'.bridge.alive = true → ∃ p, w'.made = w.made ++ [p] ∧ Placed w p w'.bridge.byteLength)
    | .request (.pipeClose fd) => CloseExact fd ∧ (Rejects w fd w' ∨ SetsItsWord w fd w')
    | .request .fork | .grow _ | .store _ _ => True

/-- The condition on a step: the memory does not end within the slot that a create takes, and a number that
is closed is one that a create returned. -/
def Fits (w : World) (ev : Event) : Prop :=
  w.bridge.alive = true →
    match ev with
    | .request .pipeCreate => w.bridge.byteLength / 65536 ≠ w.bridge.nextPipeSlot + 18
    | .request (.pipeClose fd) => ∃ p ∈ w.made, fd = p.val ∨ fd = p.r1
    | .request .fork | .grow _ | .store _ _ => True

instance (w : World) : (ev : Event) → Decidable (Fits w ev)
  | .request .pipeCreate => inferInstanceAs (Decidable (_ → _ ≠ _))
  | .request (.pipeClose fd) => inferInstanceAs (Decidable (_ → ∃ p ∈ w.made, fd = p.val ∨ fd = p.r1))
  | .request .fork | .grow _ | .store _ _ => isTrue fun _ => trivial

/-! ### The pipes that a bridge has made -/

/-- The reply of `create` for a slot. -/
def slotReply (slot : ℕ) : Reply where
  val := Int32.ofNat (slot * 2 + 100)
  r1 := Int32.ofNat (slot * 2 + 101)
  r2 := Int32.ofNat (ringOffset slot)

theorem pipeCreate_reply (b : State) : (pipeCreate b).2 = slotReply b.nextPipeSlot := rfl

/-- The slots of a bridge that runs lie in its memory of whole pages, and its replies are those of the slots
it has counted. -/
structure Inv (w : World) : Prop where
  wf : Wf w.bridge
  pages : 65536 ∣ w.bridge.byteLength
  made : w.bridge.alive = true → w.made = (List.range w.bridge.nextPipeSlot).map slotReply

theorem Starts.inv {w : World} (h : Starts w) : Inv w where
  wf := by
    refine ⟨h.byteLength_le, fun _ slot hslot => ?_⟩
    rw [h.nextPipeSlot] at hslot
    exact absurd hslot (Nat.not_lt_zero slot)
  pages := h.pages
  made := by
    intro _
    rw [h.made, h.nextPipeSlot]
    rfl

theorem Inv.mem_made {w : World} (h : Inv w) (halive : w.bridge.alive = true) {p : Reply} :
    p ∈ w.made ↔ ∃ slot < w.bridge.nextPipeSlot, slotReply slot = p := by
  rw [h.made halive, List.mem_map]
  simp only [List.mem_range]

/-- The bridge after a request that it serves. -/
theorem after_request {w : World} (halive : w.bridge.alive = true) (req : Request) :
    after w (.request req) =
      ⟨(serve w.bridge req).1, record w.made (serve w.bridge req).1 (serve w.bridge req).2 req⟩ :=
  if_pos halive

theorem wf_serve {b : State} (h : Wf b) (halive : b.alive = true) (req : Request) :
    Wf (serve b req).1 := by
  have hcall := wf_callBridge h req .answered
  rwa [callBridge, if_pos ⟨halive, by decide⟩] at hcall

@[simp] theorem serve_byteLength (b : State) (req : Request) :
    (serve b req).1.byteLength = b.byteLength := by
  cases req <;> simp [serve, pipeCreate, pipeClose, fork]

/-- A request that leaves the bridge running was served by a bridge that ran, and counted at most one slot. -/
theorem made_serve {w : World} (h : Inv w) (halive : w.bridge.alive = true) (req : Request)
    (halive' : (serve w.bridge req).1.alive = true) :
    record w.made (serve w.bridge req).1 (serve w.bridge req).2 req =
      (List.range (serve w.bridge req).1.nextPipeSlot).map slotReply := by
  cases req with
  | pipeCreate =>
      have hle := h.wf.nextPipeSlot_le halive
      have hnext : (w.bridge.nextPipeSlot + 1) % 2 ^ 32 = w.bridge.nextPipeSlot + 1 := by omega
      have hmade := h.made halive
      simp only [serve] at halive' ⊢
      rw [record, if_pos halive', pipeCreate_reply, hmade]
      simp only [pipeCreate, clearHeader_nextPipeSlot, hnext]
      rw [List.range_succ, List.map_append, List.map_singleton]
  | pipeClose fd =>
      simp only [record, serve, pipeClose, storeWord_nextPipeSlot]
      exact h.made halive
  | fork => exact h.made halive

theorem inv_after {w : World} (h : Inv w) (ev : Event) : Inv (after w ev) := by
  cases ev with
  | request req =>
      by_cases halive : w.bridge.alive = true
      · rw [after_request halive]
        refine ⟨wf_serve h.wf halive req, ?_, made_serve h halive req⟩
        rw [serve_byteLength]
        exact h.pages
      · rw [after, if_neg halive]
        exact h
  | grow pages =>
      rw [after]
      split_ifs with hle
      · refine ⟨⟨hle, fun halive slot hslot => ?_⟩, ?_, h.made⟩
        · have hin := h.wf.slots halive slot hslot
          exact Nat.le_trans hin (Nat.le_add_right _ _)
        · exact Nat.dvd_add h.pages (Nat.dvd_mul_left 65536 pages)
      · exact h
  | store addr value => exact ⟨⟨h.wf.byteLength_le, h.wf.slots⟩, h.pages, h.made⟩

/-- The replies of a bridge that runs are those of the slots it has counted, in every state of a run. -/
theorem throughout_inv {w : World} (hstart : Starts w) (evs : List Event) :
    Throughout Inv w (trace after w evs) :=
  throughout_of_isRun (fun _ ev _ h hev => hev ▸ inv_after h ev) hstart.inv (isRun_trace after w evs)

/-! ### Creating -/

/-- The numbers of a slot among the first 257 are what they are meant to be. -/
theorem slotReply_numbers {slot : ℕ} (h : slot ≤ 256) :
    (slotReply slot).r2.toInt = pipeRegionStart + slot * pipeSlotSize := by
  have hring := ringOffset_eq h
  have hlt : ringOffset slot < 2 ^ 31 := by
    rw [hring]
    unfold pipeRegionStart pipeSlotSize
    omega
  have hval : (slotReply slot).r2.toInt = ringOffset slot := Int32.toInt_ofNat_of_lt hlt
  rw [hval, hring]
  push_cast
  rfl

theorem createExact {slot : ℕ} (h : slot ≤ 256) : CreateExact slot := by
  constructor
  · omega
  · omega
  · unfold pipeRegionStart pipeSlotSize
    omega

theorem numberOf_slotReply (slot : ℕ) (e : End) :
    numberOf (slotReply slot) e = Int32.ofNat (fdOf slot e) := by
  cases e <;> rfl

theorem closedWordOf_slotReply {slot : ℕ} (h : slot ≤ 256) (e : End) :
    (closedWordOf (slotReply slot) e).toNat = closedWord slot e := by
  cases e with
  | read =>
      rw [closedWordOf, slotReply_numbers h, closedWord]
      omega
  | write =>
      rw [closedWordOf, slotReply_numbers h, closedWord]
      omega

/-- The pipes lie behind the data of the requests. -/
theorem dataRegion_end_le {slot : ℕ} (h : slot ≤ 256) :
    dataRegion.start + dataRegion.size ≤ (ringRegion (slotReply slot)).start := by
  have hnonneg : (0 : ℤ) ≤ slot * pipeSlotSize := Int.natCast_nonneg (slot * pipeSlotSize)
  simp only [ringRegion]
  rw [dataRegion_end, slotReply_numbers h]
  omega

theorem requestRing_end_le {slot : ℕ} (h : slot ≤ 256) :
    requestRing.start + requestRing.size ≤ (ringRegion (slotReply slot)).start := by
  have hdata := dataRegion_end_le h
  have hring : requestRing.start + requestRing.size = dataRegion.start := rfl
  have hsize : (0 : ℤ) ≤ dataRegion.size := Int.natCast_nonneg _
  omega

/-- A slot ends where the next begins, or before it. -/
theorem ringRegion_end_le {slot slot' : ℕ} (h : slot' ≤ 256) (hlt : slot < slot') :
    (ringRegion (slotReply slot)).start + (ringRegion (slotReply slot)).size ≤
      (ringRegion (slotReply slot')).start := by
  simp only [ringRegion]
  rw [slotReply_numbers (by omega : slot ≤ 256), slotReply_numbers h]
  unfold pipeRegionStart pipeSlotSize
  omega

/-- A slot is apart from the ring, the data and the slots before it. -/
theorem placed_iff {w : World} (h : Inv w) (halive : w.bridge.alive = true) (byteLength : ℕ) :
    Placed w (slotReply w.bridge.nextPipeSlot) byteLength ↔
      pipeRegionStart + (w.bridge.nextPipeSlot + 1) * pipeSlotSize ≤ byteLength := by
  have hle := h.wf.nextPipeSlot_le halive
  have hwithin : (ringRegion (slotReply w.bridge.nextPipeSlot)).Within byteLength ↔
      pipeRegionStart + (w.bridge.nextPipeSlot + 1) * pipeSlotSize ≤ byteLength := by
    simp only [Region.Within, ringRegion]
    rw [slotReply_numbers hle]
    unfold pipeRegionStart pipeSlotSize
    omega
  constructor
  · intro hp
    exact hwithin.1 hp.within
  · intro hbytes
    refine ⟨hwithin.2 hbytes, ?_, ?_, ?_⟩
    · exact (Region.apart_of_le (requestRing_end_le hle)).symm
    · exact (Region.apart_of_le (dataRegion_end_le hle)).symm
    · intro q hq
      obtain ⟨slot, hslot, rfl⟩ := (h.mem_made halive).1 hq
      exact (Region.apart_of_le (ringRegion_end_le hle hslot)).symm

/-- The memory ends within a slot, behind its header, exactly when it has 18 pages more than the number of the
slot. -/
theorem cut_iff {byteLength slot : ℕ} (hpages : 65536 ∣ byteLength) (h : slot ≤ 256) :
    byteLength / 65536 = slot + 18 ↔
      pipeRegionStart + slot * pipeSlotSize + 16 ≤ byteLength ∧
        ¬ pipeRegionStart + (slot + 1) * pipeSlotSize ≤ byteLength := by
  obtain ⟨pages, rfl⟩ := hpages
  unfold pipeRegionStart pipeSlotSize
  omega

/-- In a memory of 2 MiB it is the fifteenth slot. -/
example : 2097152 / 65536 = 14 + 18 := rfl

/-- **Which creates keep the layout.** -/
theorem laidOut_pipeCreate_iff {w : World} (h : Inv w) :
    LaidOut w (.request .pipeCreate) (after w (.request .pipeCreate)) ↔ Fits w (.request .pipeCreate) := by
  refine forall_congr' fun halive => ?_
  have hle := h.wf.nextPipeSlot_le halive
  have hsurvives := alive_pipeCreate_iff h.wf halive
  simp only [after_request halive, serve]
  rw [Ne, cut_iff h.pages hle, hsurvives]
  constructor
  · rintro ⟨-, hplaced⟩ ⟨hin, hout⟩
    obtain ⟨p, hp, hplaced⟩ := hplaced hin
    rw [record, if_pos (hsurvives.2 hin), pipeCreate_reply] at hp
    obtain rfl : slotReply w.bridge.nextPipeSlot = p := by simpa using hp
    rw [placed_iff h halive] at hplaced
    exact hout (by simpa [pipeCreate] using hplaced)
  · intro hcut
    refine ⟨createExact hle, fun hin => ⟨slotReply w.bridge.nextPipeSlot, ?_, ?_⟩⟩
    · rw [record, if_pos (hsurvives.2 hin), pipeCreate_reply]
    · rw [placed_iff h halive]
      by_contra hout
      exact hcut ⟨hin, by simpa [pipeCreate] using hout⟩

/-! ### Closing -/

/-- The numbers of the first 256 slots are in the range of every type on the way. -/
theorem closeExact_fdOf {slot : ℕ} (h : slot < 256) (e : End) : CloseExact (Int32.ofNat (fdOf slot e)) := by
  have hval : (Int32.ofNat (fdOf slot e)).toInt = fdOf slot e :=
    Int32.toInt_ofNat_of_lt (by cases e <;> simp only [fdOf] <;> omega)
  have hge : (100 : ℤ) ≤ fdOf slot e := by cases e <;> simp only [fdOf] <;> omega
  have hslot : ((fdOf slot e : ℤ) - 100).tdiv 2 = slot := by
    rw [Int.tdiv_eq_ediv_of_nonneg (by omega)]
    cases e <;> simp only [fdOf] <;> omega
  constructor
  · rw [hval]
    omega
  · rw [hval, hslot]
    exact Int.natCast_nonneg slot
  · rw [hval, hslot, Int.toNat_natCast]
    unfold pipeRegionStart pipeSlotSize
    omega

/-- Closing the number of a slot in the memory sets the word of its end. -/
theorem pipeClose_fdOf {b : State} (h : Wf b) (halive : b.alive = true) {slot : ℕ}
    (hslot : slot < b.nextPipeSlot) (e : End) :
    (pipeClose b (Int32.ofNat (fdOf slot e))).1 =
      { b with words := Function.update b.words (closedWord slot e) 1 } := by
  have hle : slot ≤ 256 := Nat.le_trans (Nat.le_of_lt hslot) (h.nextPipeSlot_le halive)
  have hin : closedWord slot e + 4 ≤ b.byteLength :=
    Created.closedWord_le ⟨hslot, h.slots halive slot hslot⟩ e
  rw [pipeClose, closeTarget_fdOf hle, storeWord, if_pos halive, if_pos hin]

/-- **Which closes keep the layout**: nothing is rejected, so that the number has to be one of a pipe. -/
theorem laidOut_pipeClose_iff {w : World} (h : Inv w) (fd : Int32) :
    LaidOut w (.request (.pipeClose fd)) (after w (.request (.pipeClose fd))) ↔
      Fits w (.request (.pipeClose fd)) := by
  refine forall_congr' fun halive => ?_
  simp only [after_request halive, serve]
  constructor
  · rintro ⟨-, ⟨herr, -⟩ | ⟨p, hp, e, hfd, -⟩⟩
    · exact absurd rfl herr
    · cases e with
      | read => exact ⟨p, hp, Or.inl hfd⟩
      | write => exact ⟨p, hp, Or.inr hfd⟩
  · rintro ⟨p, hp, hfd⟩
    have hend : ∃ e, fd = numberOf p e := by
      rcases hfd with hread | hwrite
      · exact ⟨.read, hread⟩
      · exact ⟨.write, hwrite⟩
    obtain ⟨e, rfl⟩ := hend
    obtain ⟨slot, hslot, rfl⟩ := (h.mem_made halive).1 hp
    have hle := h.wf.nextPipeSlot_le halive
    rw [numberOf_slotReply]
    refine ⟨closeExact_fdOf (by omega) e, Or.inr ⟨slotReply slot, hp, e, (numberOf_slotReply slot e).symm, ?_⟩⟩
    rw [closedWordOf_slotReply (by omega)]
    exact pipeClose_fdOf h.wf halive hslot e

/-! ### Runs -/

/-- **Which steps keep the layout.** -/
theorem laidOut_step_iff {w : World} (h : Inv w) (ev : Event) : LaidOut w ev (after w ev) ↔ Fits w ev := by
  cases ev with
  | request req =>
      cases req with
      | pipeCreate => exact laidOut_pipeCreate_iff h
      | pipeClose fd => exact laidOut_pipeClose_iff h fd
      | fork => exact Iff.rfl
  | grow pages => exact Iff.rfl
  | store addr value => exact Iff.rfl

/-- **The runs that keep the layout** are those in which no create takes the slot that the memory ends in, and
only numbers of pipes are closed. -/
theorem eachStep_laidOut_iff {w : World} (hstart : Starts w) (evs : List Event) :
    EachStep LaidOut w (trace after w evs) ↔ Meets Fits w (trace after w evs) :=
  eachStep_iff_meets (fun _ ev _ h hev => hev ▸ inv_after h ev)
    (fun _ ev _ h hev => hev ▸ laidOut_step_iff h ev) hstart.inv (isRun_trace after w evs)

/-- The bridge as it is built, with a memory of 2 MiB. -/
def booted : World where
  bridge := { alive := true, byteLength := 2097152, words := fun _ => 0, nextPipeSlot := 0, nextPid := 2 }
  made := []

theorem starts_booted : Starts booted where
  alive := rfl
  nextPipeSlot := rfl
  pages := by decide
  byteLength_le := by decide
  made := rfl

theorem eachStep_laidOut_iff_booted :
    EachStep LaidOut booted (trace after booted [.request .pipeCreate, .request (.pipeClose 101)]) ↔
      Meets Fits booted (trace after booted [.request .pipeCreate, .request (.pipeClose 101)]) :=
  eachStep_laidOut_iff starts_booted _

/-- The number 99 is that of no pipe, and closes the write end of the first one. -/
theorem not_laidOut_ninetyNine :
    ¬ ∀ w : World, Starts w → ∀ evs : List Event, EachStep LaidOut w (trace after w evs) := by
  intro h
  have hinv : Inv (after booted (.request .pipeCreate)) := inv_after starts_booted.inv _
  have hrun := h booted starts_booted [.request .pipeCreate, .request (.pipeClose 99)]
  have hfits := (laidOut_step_iff hinv (.request (.pipeClose 99))).1 hrun.2.1
  revert hfits
  decide +kernel

end PipeSlots
