/-
**The bridge and its pipes.**

The bridge is a wasm32 program of its own.  The kernel sends it a request through a ring in the
bridge's memory and waits five seconds for the reply; a request can therefore be answered, or given up
before or after the bridge has carried it out.  The pipes live in the bridge's memory: slot after slot
a header of four words and 65536 bytes of data.  A pipe is closed by the number of a descriptor, from
which the bridge computes the slot and the end.

Main definitions:

* `Bridge.State` — the bridge's memory and counters;
* `Bridge.pipeCreate`, `Bridge.pipeClose`, `Bridge.fork` — its request handlers;
* `Bridge.callBridge` — a request of the kernel, with its fate.

Main results:

* `Bridge.reply_pipeCreate` — when a request for a pipe succeeds;
* `Bridge.closeTarget_fdOf` — the numbers that `pipeCreate` returns close their own pipe;
* `Bridge.wf_callBridge` — the slots of a live bridge lie in its memory;
* `Bridge.closedWord_injective` — the words of two ends are different words.
-/

import Mathlib.Algebra.Order.Ring.Int
import Mathlib.Logic.Function.Basic
import Mathlib.Tactic.SplitIfs

set_option relaxedAutoImplicit false
set_option autoImplicit false

namespace Bridge

/-! ### Memory -/

/-- `PIPE_REGION_START` -/
def pipeRegionStart : ℕ := 1116176

/-- `PIPE_SLOT_SIZE` -/
def pipeSlotSize : ℕ := 65552

/-- The ends of a pipe. -/
inductive End where
  | read
  | write
deriving DecidableEq

/-- The bridge: whether it still runs, its memory as 32-bit words at byte addresses, and its counters.
A wasm32 memory of this program has at most 16 MiB. -/
structure State where
  alive : Bool
  byteLength : ℕ
  words : ℕ → ℕ
  /-- `NEXT_PIPE_SLOT`, a `u32` -/
  nextPipeSlot : ℕ
  /-- `NEXT_PID`, an `i32` -/
  nextPid : Int32

/-- The reply to a request. -/
structure Reply where
  val : Int32 := 0
  r1 : Int32 := 0
  r2 : Int32 := 0
  err : Int32 := 0
deriving DecidableEq

/-- A store of a word.  One that is out of bounds traps, and the bridge runs no more. -/
def storeWord (b : State) (addr value : ℕ) : State :=
  if b.alive then
    if addr + 4 ≤ b.byteLength then { b with words := Function.update b.words addr value }
    else { b with alive := false }
  else b

/-- `ring_offset` of a slot, in 32-bit arithmetic. -/
def ringOffset (slot : ℕ) : ℕ := (pipeRegionStart + slot * pipeSlotSize) % 2 ^ 32

/-- `PIPE_REGION_START + slot * PIPE_SLOT_SIZE` as `create` writes it: the four words of the header. -/
def clearHeader (b : State) (ring : ℕ) : State :=
  storeWord (storeWord (storeWord (storeWord b ring 0) (ring + 4) 0) (ring + 8) 0) (ring + 12) 0

/-! ### Requests -/

/-- `pipe::create` -/
def pipeCreate (b : State) : State × Reply :=
  let slot := b.nextPipeSlot
  let b := { b with nextPipeSlot := (slot + 1) % 2 ^ 32 }
  (clearHeader b (ringOffset slot),
    { val := Int32.ofNat (slot * 2 + 100)
      r1 := Int32.ofNat (slot * 2 + 101)
      r2 := Int32.ofNat (ringOffset slot) })

/-- The address of the word that `pipe::close` sets for a descriptor number. -/
def closeTarget (fd : Int32) : ℕ :=
  let slotBase := ((fd - 100) / 2).toUInt32.toNat
  ringOffset slotBase + if fd % 2 = 1 then 8 else 12

/-- `pipe::close` -/
def pipeClose (b : State) (fd : Int32) : State × Reply := (storeWord b (closeTarget fd) 1, {})

/-- `process::fork` -/
def fork (b : State) : State × Reply := ({ b with nextPid := b.nextPid + 1 }, { val := b.nextPid })

/-- The requests the kernel sends. -/
inductive Request where
  | pipeCreate
  | pipeClose (fd : Int32)
  | fork

/-- The dispatch of the main loop. -/
def serve (b : State) : Request → State × Reply
  | .pipeCreate => pipeCreate b
  | .pipeClose fd => pipeClose b fd
  | .fork => fork b

/-- What becomes of a request: it is answered in time, it is never read, or it is carried out too
late. -/
inductive Fate where
  | answered
  | lostBefore
  | lostAfter
deriving DecidableEq

/-- The reply of a request that timed out. -/
def timedOut : Reply := { err := 110 }

/-- Whether the bridge carries a request out. -/
def Executes (b : State) (fate : Fate) : Prop := b.alive = true ∧ fate ≠ .lostBefore

instance (b : State) (fate : Fate) : Decidable (Executes b fate) :=
  inferInstanceAs (Decidable (_ ∧ _))

/-- `callBridge`.  A request that traps the bridge is never answered. -/
def callBridge (b : State) (req : Request) (fate : Fate) : State × Reply :=
  if Executes b fate then
    let (b', reply) := serve b req
    (b', if b'.alive = true ∧ fate = .answered then reply else timedOut)
  else (b, timedOut)

/-! ### The numbers of a pipe -/

/-- The header of a slot is in the memory. -/
def InMemory (b : State) (slot : ℕ) : Prop :=
  pipeRegionStart + slot * pipeSlotSize + 16 ≤ b.byteLength

instance (b : State) (slot : ℕ) : Decidable (InMemory b slot) := inferInstanceAs (Decidable (_ ≤ _))

/-- A pipe that has been created: its slot was handed out and its header written. -/
def Created (b : State) (slot : ℕ) : Prop := slot < b.nextPipeSlot ∧ InMemory b slot

/-- The address of `write_closed` or `read_closed` of a slot in the memory. -/
def closedWord (slot : ℕ) : End → ℕ
  | .write => pipeRegionStart + slot * pipeSlotSize + 8
  | .read => pipeRegionStart + slot * pipeSlotSize + 12

/-- The number of an end of a pipe, as `create` computes it. -/
def fdOf (slot : ℕ) : End → ℕ
  | .read => slot * 2 + 100
  | .write => slot * 2 + 101

theorem closedWord_injective {s t : ℕ} {e f : End} (h : closedWord s e = closedWord t f) :
    s = t ∧ e = f := by
  cases e <;> cases f <;> simp only [closedWord, pipeRegionStart, pipeSlotSize] at h
  · exact ⟨by omega, rfl⟩
  · omega
  · omega
  · exact ⟨by omega, rfl⟩

/-- The words that close pipes lie behind the cleared header words of other slots, too. -/
theorem closedWord_ne {s t i : ℕ} {e : End} (h : s ≠ t) (hi : i < 16) :
    closedWord s e ≠ pipeRegionStart + t * pipeSlotSize + i := by
  cases e <;> simp only [closedWord, pipeRegionStart, pipeSlotSize] <;> omega

/-- The memory has at most 16 MiB, and the slots of a bridge that runs lie in it. -/
structure Wf (b : State) : Prop where
  byteLength_le : b.byteLength ≤ 2 ^ 24
  slots : b.alive = true → ∀ slot < b.nextPipeSlot, InMemory b slot

/-- A slot in a memory of 16 MiB is among the first 256. -/
theorem InMemory.lt {b : State} (hb : b.byteLength ≤ 2 ^ 24) {slot : ℕ} (h : InMemory b slot) :
    slot < 256 := by
  unfold InMemory pipeRegionStart pipeSlotSize at h
  omega

theorem Wf.nextPipeSlot_le {b : State} (h : Wf b) (halive : b.alive = true) :
    b.nextPipeSlot ≤ 256 := by
  rcases Nat.lt_or_ge 256 b.nextPipeSlot with hlt | hge
  · exact absurd ((h.slots halive 256 hlt).lt h.byteLength_le) (Nat.lt_irrefl 256)
  · exact hge

/-- The address of a slot among the first 257 does not wrap around. -/
theorem ringOffset_eq {slot : ℕ} (h : slot ≤ 256) :
    ringOffset slot = pipeRegionStart + slot * pipeSlotSize := by
  unfold ringOffset pipeRegionStart pipeSlotSize
  omega

/-! ### What a request does -/

@[simp] theorem storeWord_byteLength (b : State) (addr value : ℕ) :
    (storeWord b addr value).byteLength = b.byteLength := by
  unfold storeWord
  split_ifs <;> rfl

@[simp] theorem storeWord_nextPipeSlot (b : State) (addr value : ℕ) :
    (storeWord b addr value).nextPipeSlot = b.nextPipeSlot := by
  unfold storeWord
  split_ifs <;> rfl

theorem alive_of_storeWord {b : State} {addr value : ℕ}
    (h : (storeWord b addr value).alive = true) : b.alive = true ∧ addr + 4 ≤ b.byteLength := by
  unfold storeWord at h
  split_ifs at h with ha hin
  · exact ⟨ha, hin⟩
  · exact absurd h ha

/-- A store changes no other word. -/
theorem storeWord_words_ne {b : State} {addr value a : ℕ} (h : a ≠ addr) :
    (storeWord b addr value).words a = b.words a := by
  unfold storeWord
  split_ifs
  · exact Function.update_of_ne h _ _
  · rfl
  · rfl

theorem storeWord_words_self {b : State} {addr value : ℕ} (ha : b.alive = true)
    (hin : addr + 4 ≤ b.byteLength) : (storeWord b addr value).words addr = value := by
  rw [storeWord, if_pos ha, if_pos hin]
  exact Function.update_self _ _ _

theorem storeWord_alive {b : State} {addr value : ℕ} (hin : addr + 4 ≤ b.byteLength) :
    (storeWord b addr value).alive = b.alive := by
  unfold storeWord
  split_ifs <;> rfl

@[simp] theorem clearHeader_byteLength (b : State) (ring : ℕ) :
    (clearHeader b ring).byteLength = b.byteLength := by
  simp [clearHeader]

@[simp] theorem clearHeader_nextPipeSlot (b : State) (ring : ℕ) :
    (clearHeader b ring).nextPipeSlot = b.nextPipeSlot := by
  simp [clearHeader]

/-- Clearing a header changes only its four words. -/
theorem clearHeader_words_of_ne {b : State} {ring a : ℕ} (h : ∀ i < 16, a ≠ ring + i) :
    (clearHeader b ring).words a = b.words a := by
  have h0 : a ≠ ring := h 0 (by omega)
  rw [clearHeader, storeWord_words_ne (h 12 (by omega)), storeWord_words_ne (h 8 (by omega)),
    storeWord_words_ne (h 4 (by omega)), storeWord_words_ne h0]

theorem alive_of_clearHeader {b : State} {ring : ℕ} (h : (clearHeader b ring).alive = true) :
    b.alive = true ∧ ring + 16 ≤ b.byteLength := by
  obtain ⟨h₁, hin⟩ := alive_of_storeWord h
  simp only [storeWord_byteLength] at hin
  obtain ⟨h₂, -⟩ := alive_of_storeWord h₁
  obtain ⟨h₃, -⟩ := alive_of_storeWord h₂
  exact ⟨(alive_of_storeWord h₃).1, hin⟩

/-- A header in the memory of a bridge that runs is cleared, and the bridge runs on. -/
theorem clearHeader_of_inMemory {b : State} {ring : ℕ} (ha : b.alive = true)
    (hin : ring + 16 ≤ b.byteLength) :
    (clearHeader b ring).alive = true ∧ (clearHeader b ring).words (ring + 8) = 0 ∧
      (clearHeader b ring).words (ring + 12) = 0 := by
  have hlen : ∀ (b' : State), b'.byteLength = b.byteLength → ∀ i ≤ 12, ring + i + 4 ≤ b'.byteLength :=
    fun b' h i hi => by omega
  have h₁ : (storeWord b ring 0).alive = true := by
    rw [storeWord_alive (hlen b rfl 0 (by omega)), ha]
  have h₂ : (storeWord (storeWord b ring 0) (ring + 4) 0).alive = true := by
    rw [storeWord_alive (hlen _ (by simp) 4 (by omega)), h₁]
  have h₃ : (storeWord (storeWord (storeWord b ring 0) (ring + 4) 0) (ring + 8) 0).alive = true := by
    rw [storeWord_alive (hlen _ (by simp) 8 (by omega)), h₂]
  refine ⟨?_, ?_, ?_⟩
  · rw [clearHeader, storeWord_alive (hlen _ (by simp) 12 (by omega)), h₃]
  · rw [clearHeader, storeWord_words_ne (by omega),
      storeWord_words_self h₂ (hlen _ (by simp) 8 (by omega))]
  · rw [clearHeader, storeWord_words_self h₃ (hlen _ (by simp) 12 (by omega))]

theorem wf_pipeCreate {b : State} (h : Wf b) (ha : b.alive = true) : Wf (pipeCreate b).1 := by
  have hle := h.nextPipeSlot_le ha
  have hbytes := h.byteLength_le
  constructor
  · simpa [pipeCreate] using hbytes
  · intro halive slot hslot
    obtain ⟨-, hin⟩ := alive_of_clearHeader halive
    simp only [ringOffset_eq hle] at hin
    have hlt : slot < b.nextPipeSlot + 1 := by
      simp only [pipeCreate, clearHeader_nextPipeSlot] at hslot
      omega
    simp only [InMemory, pipeCreate, clearHeader_byteLength]
    rcases Nat.lt_succ_iff_lt_or_eq.1 hlt with hold | rfl
    · exact h.slots ha slot hold
    · exact hin

/-- **The slots of a bridge that runs lie in its memory**, after every request. -/
theorem wf_callBridge {b : State} (h : Wf b) (req : Request) (fate : Fate) :
    Wf (callBridge b req fate).1 := by
  unfold callBridge
  split_ifs with hex
  · cases req with
    | pipeCreate => exact wf_pipeCreate h hex.1
    | pipeClose fd =>
        have hbytes := h.byteLength_le
        refine ⟨by simpa [serve, pipeClose] using hbytes, fun halive slot hslot => ?_⟩
        simp only [serve, pipeClose, storeWord_nextPipeSlot] at hslot
        simpa [InMemory, serve, pipeClose] using h.slots (alive_of_storeWord halive).1 slot hslot
    | fork => exact ⟨h.byteLength_le, h.slots⟩
  · exact h

/-! ### Creating -/

/-- A request to create a pipe succeeds: it is answered, and the next slot lies in the memory. -/
def Creates (b : State) (fate : Fate) : Prop :=
  b.alive = true ∧ fate = .answered ∧ InMemory b b.nextPipeSlot

instance (b : State) (fate : Fate) : Decidable (Creates b fate) :=
  inferInstanceAs (Decidable (_ ∧ _ ∧ _))

/-- Writing the header of the next slot traps exactly when the slot is not in the memory. -/
theorem alive_pipeCreate_iff {b : State} (h : Wf b) (ha : b.alive = true) :
    (pipeCreate b).1.alive = true ↔ InMemory b b.nextPipeSlot := by
  have hring := ringOffset_eq (h.nextPipeSlot_le ha)
  constructor
  · intro halive
    have hin := (alive_of_clearHeader halive).2
    simp only [hring] at hin
    exact hin
  · intro hin
    have hin' : ringOffset b.nextPipeSlot + 16 ≤ b.byteLength := by
      rw [hring]
      exact hin
    exact (@clearHeader_of_inMemory { b with nextPipeSlot := (b.nextPipeSlot + 1) % 2 ^ 32 } _ ha hin').1

/-- **The reply to a request for a pipe.** -/
theorem reply_pipeCreate {b : State} (h : Wf b) (fate : Fate) :
    (callBridge b .pipeCreate fate).2 = if Creates b fate then (pipeCreate b).2 else timedOut := by
  by_cases hc : Creates b fate
  · obtain ⟨ha, hfate, hin⟩ := hc
    have halive := (alive_pipeCreate_iff h ha).2 hin
    rw [if_pos ⟨ha, hfate, hin⟩, callBridge, if_pos ⟨ha, by rw [hfate]; decide⟩]
    exact if_pos ⟨halive, hfate⟩
  · rw [if_neg hc, callBridge]
    split_ifs with hex
    · refine if_neg ?_
      rintro ⟨halive, hfate⟩
      exact hc ⟨hex.1, hfate, (alive_pipeCreate_iff h hex.1).1 halive⟩
    · rfl

/-- The numbers in the reply. -/
theorem pipeCreate_numbers {b : State} (hslot : b.nextPipeSlot ≤ 256) :
    (pipeCreate b).2.val.toInt = fdOf b.nextPipeSlot .read ∧
      (pipeCreate b).2.r1.toInt = fdOf b.nextPipeSlot .write ∧
      (pipeCreate b).2.r2.toInt = ringOffset b.nextPipeSlot := by
  have hring := ringOffset_eq hslot
  unfold pipeRegionStart pipeSlotSize at hring
  refine ⟨Int32.toInt_ofNat_of_lt ?_, Int32.toInt_ofNat_of_lt ?_, Int32.toInt_ofNat_of_lt ?_⟩ <;> omega

theorem Creates.le {b : State} (h : Wf b) {fate : Fate} (hc : Creates b fate) :
    b.nextPipeSlot ≤ 256 :=
  h.nextPipeSlot_le hc.1

/-! ### Closing by number -/

/-- The word that a number from 100 on closes: the slot is half the way from 100, and an odd number is a
write end. -/
theorem closeTarget_eq {fd : Int32} (h : 100 ≤ fd.toInt) :
    closeTarget fd =
      ringOffset ((fd.toInt - 100) / 2).toNat + if fd.toInt % 2 = 1 then 8 else 12 := by
  have hlt : fd.toInt < 2 ^ 31 := fd.toInt_lt
  have hhundred : (100 : Int32).toInt = 100 := by decide
  have htwo : (2 : Int32).toInt = 2 := by decide
  have hone : (1 : Int32).toInt = 1 := by decide
  have hsub : (fd - 100).toInt = fd.toInt - 100 := by
    rw [Int32.toInt_sub, hhundred, Int.bmod_eq_of_le (by omega) (by omega)]
  have hdiv : ((fd - 100) / 2).toInt = (fd.toInt - 100) / 2 := by
    rw [Int32.toInt_div_of_ne_right _ _ (by decide), hsub, htwo,
      Int.tdiv_eq_ediv_of_nonneg (by omega)]
  have hnonneg : 0 ≤ (fd - 100) / 2 := by
    rw [Int32.le_iff_toInt_le, hdiv]
    exact Int.ediv_nonneg (by omega) (by decide)
  have hodd : fd % 2 = 1 ↔ fd.toInt % 2 = 1 := by
    rw [← Int32.toInt_inj, Int32.toInt_mod, htwo, hone, Int.tmod_eq_emod_of_nonneg (by omega)]
  have hslot : ((fd - 100) / 2).toUInt32.toNat = ((fd.toInt - 100) / 2).toNat := by
    rw [Int32.toNat_toUInt32_of_le hnonneg, ← hdiv]
    rfl
  rw [closeTarget, hslot]
  simp only [hodd]

/-- **The number that `pipeCreate` returned for an end closes that end.** -/
theorem closeTarget_fdOf {slot : ℕ} (h : slot ≤ 256) (e : End) :
    closeTarget (Int32.ofNat (fdOf slot e)) = closedWord slot e := by
  have hval : (Int32.ofNat (fdOf slot e)).toInt = fdOf slot e :=
    Int32.toInt_ofNat_of_lt (by cases e <;> simp only [fdOf] <;> omega)
  rw [closeTarget_eq (by rw [hval]; cases e <;> simp only [fdOf] <;> omega), hval]
  cases e with
  | read =>
      have hslot : (((fdOf slot .read : ℕ) : ℤ) - 100) / 2 = slot := by simp only [fdOf]; omega
      rw [hslot, Int.toNat_natCast, ringOffset_eq h, if_neg (by simp only [fdOf]; omega)]
      rfl
  | write =>
      have hslot : (((fdOf slot .write : ℕ) : ℤ) - 100) / 2 = slot := by simp only [fdOf]; omega
      rw [hslot, Int.toNat_natCast, ringOffset_eq h, if_pos (by simp only [fdOf]; omega)]
      rfl

/-! ### What a request does to pipes -/

/-- The slot and the end whose word lies at an address. -/
def endAt (addr : ℕ) : Option (ℕ × End) :=
  let d := addr - pipeRegionStart
  if addr < pipeRegionStart then none
  else if d % pipeSlotSize = 8 then some (d / pipeSlotSize, .write)
  else if d % pipeSlotSize = 12 then some (d / pipeSlotSize, .read)
  else none

theorem endAt_closedWord (slot : ℕ) (e : End) : endAt (closedWord slot e) = some (slot, e) := by
  cases e with
  | read =>
      have hmod : (closedWord slot .read - pipeRegionStart) % pipeSlotSize = 12 := by
        simp only [closedWord, pipeRegionStart, pipeSlotSize]
        omega
      have hdiv : (closedWord slot .read - pipeRegionStart) / pipeSlotSize = slot := by
        simp only [closedWord, pipeRegionStart, pipeSlotSize]
        omega
      have hge : ¬ closedWord slot .read < pipeRegionStart := by
        simp only [closedWord]
        omega
      simp only [endAt, if_neg hge, hmod, hdiv]
      rfl
  | write =>
      have hmod : (closedWord slot .write - pipeRegionStart) % pipeSlotSize = 8 := by
        simp only [closedWord, pipeRegionStart, pipeSlotSize]
        omega
      have hdiv : (closedWord slot .write - pipeRegionStart) / pipeSlotSize = slot := by
        simp only [closedWord, pipeRegionStart, pipeSlotSize]
        omega
      have hge : ¬ closedWord slot .write < pipeRegionStart := by
        simp only [closedWord]
        omega
      simp only [endAt, if_neg hge, hmod, hdiv]
      rfl

/-- The word at an address is that of the slot and the end. -/
theorem endAt_eq_some {addr slot : ℕ} {e : End} :
    endAt addr = some (slot, e) ↔ addr = closedWord slot e := by
  constructor
  · intro h
    simp only [endAt] at h
    split_ifs at h with hlt hw hr
    · obtain ⟨rfl, rfl⟩ := Prod.mk.inj (Option.some_inj.1 h)
      simp only [closedWord, pipeRegionStart, pipeSlotSize] at *
      omega
    · obtain ⟨rfl, rfl⟩ := Prod.mk.inj (Option.some_inj.1 h)
      simp only [closedWord, pipeRegionStart, pipeSlotSize] at *
      omega
  · rintro rfl
    exact endAt_closedWord slot e

theorem Created.closedWord_le {b : State} {slot : ℕ} (h : Created b slot) (e : End) :
    closedWord slot e + 4 ≤ b.byteLength := by
  have hin := h.2
  unfold InMemory at hin
  cases e <;> simp only [closedWord] <;> omega

@[simp] theorem created_pipeClose (b : State) (fd : Int32) (slot : ℕ) :
    Created (pipeClose b fd).1 slot ↔ Created b slot := by
  simp [Created, InMemory, pipeClose]

/-- **What closing does to the words of pipes**: the word at the address is set, no other changes. -/
theorem words_pipeClose {b : State} (ha : b.alive = true) (fd : Int32) {slot : ℕ}
    (hslot : Created b slot) (e : End) :
    (pipeClose b fd).1.words (closedWord slot e) =
      if closeTarget fd = closedWord slot e then 1 else b.words (closedWord slot e) := by
  unfold pipeClose
  split_ifs with ht
  · rw [ht]
    exact storeWord_words_self ha (hslot.closedWord_le e)
  · exact storeWord_words_ne fun h => ht h.symm

/-- **The pipes after a request for one.** -/
theorem created_pipeCreate {b : State} (h : Wf b) (ha : b.alive = true) (slot : ℕ) :
    Created (pipeCreate b).1 slot ↔
      Created b slot ∨ slot = b.nextPipeSlot ∧ InMemory b b.nextPipeSlot := by
  have hle := h.nextPipeSlot_le ha
  have hnext : (b.nextPipeSlot + 1) % 2 ^ 32 = b.nextPipeSlot + 1 := by omega
  simp only [Created, InMemory, pipeCreate, clearHeader_byteLength, clearHeader_nextPipeSlot, hnext]
  constructor
  · rintro ⟨hlt, hin⟩
    rcases Nat.lt_succ_iff_lt_or_eq.1 hlt with hold | rfl
    · exact Or.inl ⟨hold, hin⟩
    · exact Or.inr ⟨rfl, hin⟩
  · rintro (⟨hlt, hin⟩ | ⟨rfl, hin⟩)
    · exact ⟨by omega, hin⟩
    · exact ⟨by omega, hin⟩

/-- A pipe stays made. -/
theorem Created.serve {b : State} (h : Wf b) (ha : b.alive = true) {slot : ℕ} (hslot : Created b slot)
    (req : Request) : Created (serve b req).1 slot := by
  cases req with
  | pipeCreate => exact (created_pipeCreate h ha slot).2 (Or.inl hslot)
  | pipeClose fd => exact (created_pipeClose b fd slot).2 hslot
  | fork => exact hslot

/-- The words of the pipes there are stay as they were. -/
theorem words_pipeCreate_old {b : State} (h : Wf b) (ha : b.alive = true) {slot : ℕ}
    (hslot : Created b slot) (e : End) :
    (pipeCreate b).1.words (closedWord slot e) = b.words (closedWord slot e) := by
  have hring := ringOffset_eq (h.nextPipeSlot_le ha)
  refine clearHeader_words_of_ne fun i hi => ?_
  rw [hring]
  exact closedWord_ne (Nat.ne_of_lt hslot.1) hi

/-- The ends of a new pipe are open. -/
theorem words_pipeCreate_new {b : State} (h : Wf b) (ha : b.alive = true)
    (hin : InMemory b b.nextPipeSlot) (e : End) :
    (pipeCreate b).1.words (closedWord b.nextPipeSlot e) = 0 := by
  have hring := ringOffset_eq (h.nextPipeSlot_le ha)
  have hin' : ringOffset b.nextPipeSlot + 16 ≤ b.byteLength := by
    rw [hring]
    exact hin
  obtain ⟨-, hw, hr⟩ :=
    @clearHeader_of_inMemory { b with nextPipeSlot := (b.nextPipeSlot + 1) % 2 ^ 32 } _ ha hin'
  rw [hring] at hw hr
  simp only [pipeCreate, hring]
  cases e with
  | read => exact hr
  | write => exact hw

end Bridge
