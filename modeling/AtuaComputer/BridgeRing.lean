/-
**The ring of requests to the bridge.**

The kernel sends its requests to the bridge through a ring of 32 slots in the bridge's memory.
`callBridge` takes the next position, waits until the slot is free, stores the request word by word and
sets the status of the slot to 1; the main loop of the bridge finds the status, loads the words, carries the
request out, stores the response into the same slot, sets the status to 2 and moves its own position.  The
kernel makes one call at a time, but its call may give up before, while or after the bridge works on it, and
it then frees the slot.

This module has both loops, one event for each access to the ring.  What a handler of the bridge does is a
parameter; since it runs in the same memory, it may also store into the slots.

Main definitions:

* `BridgeRing.State`, `BridgeRing.after` — the ring, the kernel in `callBridge` and the bridge in its loop;
* `BridgeRing.Answers` — a call returns the response to its own request;
* `BridgeRing.Settled` — after the last call the slots are free and the positions agree;
* `BridgeRing.InTime` — the slots that a timeout frees are answered.

Main results:

* `BridgeRing.inv_after` — what an event keeps;
* `BridgeRing.ring_of_meets` — **when the ring does what it is for**.
-/

import AtuaComputer.Runs
import AtuaComputer.WordTransfer

set_option relaxedAutoImplicit false
set_option autoImplicit false

namespace BridgeRing

open Runs WordTransfer

/-! ### Messages -/

/-- `RING_SLOTS` -/
def ringSlots : ℕ := 32

/-- `SLOT_STATUS` -/
def slotStatus : ℕ := 2

/-- What a request asks for. -/
structure Request where
  msgType : Int32
  a0 : Int32
  a1 : Int32
  a2 : Int32
  a3 : Int32
  a4 : Int32
  a5 : Int32
deriving DecidableEq

/-- `BridgeResult` -/
structure Response where
  val : Int32
  r1 : Int32
  r2 : Int32
  r3 : Int32
  err : Int32
deriving DecidableEq

/-- The words of a request in the order in which the bridge loads them. -/
def Request.words (r : Request) : List Int32 := [r.msgType, r.a0, r.a1, r.a2, r.a3, r.a4, r.a5]

/-- Where the bridge loads them: `SLOT_MSG_TYPE` and `SLOT_PAYLOAD + 0..5`. -/
def requestOffsets : List ℕ := [1, 4, 5, 6, 7, 8, 9]

/-- The request that the loaded words make. -/
def Request.ofWords : List Int32 → Request
  | [msgType, a0, a1, a2, a3, a4, a5] => ⟨msgType, a0, a1, a2, a3, a4, a5⟩
  | _ => ⟨0, 0, 0, 0, 0, 0, 0⟩

/-- The words of a response in the order in which they are stored and loaded. -/
def Response.words (r : Response) : List Int32 := [r.val, r.r1, r.r2, r.r3, r.err]

/-- Where they are stored and loaded: `SLOT_PAYLOAD + 0..3` and `SLOT_ERROR`. -/
def responseOffsets : List ℕ := [4, 5, 6, 7, 3]

/-- The response that the loaded words make. -/
def Response.ofWords : List Int32 → Response
  | [val, r1, r2, r3, err] => ⟨val, r1, r2, r3, err⟩
  | _ => ⟨0, 0, 0, 0, 0⟩

/-- The stores of `callBridge` before that of the status. -/
def requestStores (id : Int32) (r : Request) : List (ℕ × Int32) :=
  [(0, id), (1, r.msgType), (3, 0), (4, r.a0), (5, r.a1), (6, r.a2), (7, r.a3), (8, r.a4), (9, r.a5)]

/-- The stores of the bridge before that of the status. -/
def responseStores (r : Response) : List (ℕ × Int32) := responseOffsets.zip r.words

/-- `writePos % RING_SLOTS` of the kernel, where it is the index of a slot.  The kernel loads the position
as a signed word; a negative remainder makes the next access a `RangeError`. -/
def slotIndex (writePos : UInt32) : Option ℕ :=
  let slot := writePos.toInt32.toInt.tmod ringSlots
  if 0 ≤ slot then some slot.toNat else none

/-! ### State -/

/-- Where the kernel is in `callBridge`. -/
inductive KernelPc where
  | idle
  | numbered (req : Request) (reqId : Int32)
  | spinning (req : Request) (reqId : Int32) (slot : ℕ)
  | filling (req : Request) (reqId : Int32) (slot stored : ℕ)
  | armed (req : Request) (slot : ℕ)
  | sleeping (req : Request) (slot : ℕ)
  | timedOut (req : Request) (slot : ℕ)
  | reading (req : Request) (slot : ℕ) (got : List Int32)
deriving DecidableEq

/-- Where the bridge is in its main loop.  `call` is the number of the call whose request it has found. -/
inductive BridgePc where
  | top
  | loadedRead (readPos : UInt32)
  | checking (readPos : UInt32)
  | loading (readPos : UInt32) (call : ℕ) (got : List Int32)
  | executing (readPos : UInt32) (call : ℕ) (req : Request)
  | storing (readPos : UInt32) (res : Response) (stored : ℕ)
  | advancing (readPos : UInt32)
  | stopped
deriving DecidableEq

/-- A request that the bridge has carried out. -/
structure Executed where
  call : ℕ
  req : Request
  res : Response
deriving DecidableEq

/-- What a handler does: its response, the rest of the memory after it, and its stores into the slots. -/
structure Handled (β : Type) where
  res : Response
  rest : β
  stores : List (ℕ × ℕ × Int32)

/-- The ring, the kernel, the bridge, and what has happened: the number of calls, for each slot the call
whose request was put there last, and the requests that were carried out. -/
structure State (β : Type) where
  writePos : UInt32
  readPos : UInt32
  nextId : UInt32
  slots : ℕ → ℕ → Int32
  kernel : KernelPc
  bridge : BridgePc
  rest : β
  calls : ℕ
  owner : ℕ → ℕ
  executed : List Executed

/-- The index of the slot at the position of the bridge. -/
def readSlot (readPos : UInt32) : ℕ := readPos.toNat % ringSlots

section Model

variable {β : Type}

/-- A store of a word of a slot. -/
def setWord (slots : ℕ → ℕ → Int32) (slot off : ℕ) (v : Int32) : ℕ → ℕ → Int32 :=
  Function.update slots slot (Function.update (slots slot) off v)

/-- The status of a slot. -/
def status (s : State β) (slot : ℕ) : Int32 := s.slots slot slotStatus

/-! ### Steps -/

/-- The start of `callBridge`: the number of the request is taken. -/
def call (s : State β) (req : Request) : State β :=
  match s.kernel with
  | .idle =>
    { s with nextId := s.nextId + 1, calls := s.calls + 1, kernel := .numbered req s.nextId.toInt32 }
  | _ => s

/-- The next access of the kernel.  The bridge stores its response without a notify, so a call that has
begun to wait does not go on before its time is up. -/
def kernelStep (s : State β) : State β :=
  match s.kernel with
  | .idle => s
  | .numbered req reqId =>
    { s with
      writePos := s.writePos + 1
      kernel :=
        match slotIndex s.writePos with
        | some slot => .spinning req reqId slot
        | none => .idle }
  | .spinning req reqId slot =>
    if status s slot = 0 then { s with kernel := .filling req reqId slot 0 } else s
  | .filling req reqId slot stored =>
    match (requestStores reqId req)[stored]? with
    | some (off, v) =>
      { s with slots := setWord s.slots slot off v, kernel := .filling req reqId slot (stored + 1) }
    | none =>
      { s with
        slots := setWord s.slots slot slotStatus 1
        owner := Function.update s.owner slot s.calls
        kernel := .armed req slot }
  | .armed req slot =>
    { s with kernel := if status s slot = 1 then .sleeping req slot else .reading req slot [] }
  | .sleeping _ _ => s
  | .timedOut _ slot => { s with slots := setWord s.slots slot slotStatus 0, kernel := .idle }
  | .reading req slot got =>
    match responseOffsets[got.length]? with
    | some off => { s with kernel := .reading req slot (got ++ [s.slots slot off]) }
    | none => { s with slots := setWord s.slots slot slotStatus 0, kernel := .idle }

/-- The five seconds of a call are over. -/
def timeout (s : State β) : State β :=
  match s.kernel with
  | .sleeping req slot => { s with kernel := .timedOut req slot }
  | _ => s

/-- The stores of a handler into the slots. -/
def applyStores (slots : ℕ → ℕ → Int32) : List (ℕ × ℕ × Int32) → ℕ → ℕ → Int32
  | [] => slots
  | (slot, off, v) :: stores => applyStores (setWord slots slot off v) stores

/-- The next access of the bridge.  A handler that ends the loop or traps has no outcome. -/
def bridgeStep (dispatch : β → Request → Option (Handled β)) (s : State β) : State β :=
  match s.bridge with
  | .top => { s with bridge := .loadedRead s.readPos }
  | .loadedRead readPos =>
    { s with bridge := if readPos = s.writePos then .top else .checking readPos }
  | .checking readPos =>
    { s with
      bridge :=
        if status s (readSlot readPos) = 1 then .loading readPos (s.owner (readSlot readPos)) [] else .top }
  | .loading readPos call got =>
    match requestOffsets[got.length]? with
    | some off => { s with bridge := .loading readPos call (got ++ [s.slots (readSlot readPos) off]) }
    | none => { s with bridge := .executing readPos call (.ofWords got) }
  | .executing readPos call req =>
    match dispatch s.rest req with
    | some handled =>
      { s with
        slots := applyStores s.slots handled.stores
        rest := handled.rest
        executed := s.executed ++ [⟨call, req, handled.res⟩]
        bridge := .storing readPos handled.res 0 }
    | none => { s with bridge := .stopped }
  | .storing readPos res stored =>
    match (responseStores res)[stored]? with
    | some (off, v) =>
      { s with
        slots := setWord s.slots (readSlot readPos) off v
        bridge := .storing readPos res (stored + 1) }
    | none =>
      { s with slots := setWord s.slots (readSlot readPos) slotStatus 2, bridge := .advancing readPos }
  | .advancing readPos => { s with readPos := readPos + 1, bridge := .top }
  | .stopped => s

/-- What happens: a call starts, one of the two takes its next step, or the time of a call is over. -/
inductive Event where
  | call (req : Request)
  | kernelStep
  | bridgeStep
  | timeout

/-- The state after an event. -/
def after (dispatch : β → Request → Option (Handled β)) (s : State β) : Event → State β
  | .call req => call s req
  | .kernelStep => kernelStep s
  | .bridgeStep => bridgeStep dispatch s
  | .timeout => timeout s

/-- The step relation. -/
def Step (dispatch : β → Request → Option (Handled β)) (s : State β) (ev : Event) (s' : State β) : Prop :=
  s' = after dispatch s ev

/-- The bridge has cleared the ring, and nobody has used it. -/
structure Starts (s : State β) : Prop where
  writePos : s.writePos = 0
  readPos : s.readPos = 0
  slots : ∀ i off, s.slots i off = 0
  kernel : s.kernel = .idle
  bridge : s.bridge = .top
  executed : s.executed = []

/-! ### What the ring is for -/

/-- What a call returns in its next step, if it returns, with its request. -/
def returned (s : State β) : Option (Request × Response) :=
  match s.kernel with
  | .reading req _ got => if got.length < responseOffsets.length then none else some (req, .ofWords got)
  | _ => none

/-- A call that returns without the error of the timeout returns what the bridge has computed for its
request. -/
def Answers (s : State β) (ev : Event) (_ : State β) : Prop :=
  ev = .kernelStep → ∀ req res, returned s = some (req, res) → ⟨s.calls, req, res⟩ ∈ s.executed

/-- No request is carried out twice. -/
def OnceEach (s : State β) : Prop := (s.executed.map Executed.call).Nodup

/-- The bridge has no step left but its idle poll: it finds no position to look at, or no request there. -/
def Polls (s : State β) : Prop :=
  match s.bridge with
  | .top | .loadedRead _ | .checking _ => s.readPos = s.writePos ∨ status s (readSlot s.readPos) ≠ 1
  | .stopped => True
  | _ => False

/-- When no call is outstanding and the bridge only polls, all slots are free and the positions agree. -/
def Settled (s : State β) : Prop :=
  s.kernel = .idle → Polls s → (∀ slot < ringSlots, status s slot = 0) ∧ s.readPos = s.writePos

/-- When the timeout of a call frees its slot, the response is in the slot. -/
def InTime (s : State β) : Event → Prop
  | .kernelStep =>
    match s.kernel with
    | .timedOut _ slot => status s slot = 2
    | _ => True
  | _ => True

/-- A position that the kernel takes is the number of a slot: it is no negative number with a remainder. -/
def InRange (s : State β) : Event → Prop
  | .kernelStep =>
    match s.kernel with
    | .numbered _ _ => slotIndex s.writePos ≠ none
    | _ => True
  | _ => True

/-- The handler that runs stores nothing into the slots. -/
def NoStray (dispatch : β → Request → Option (Handled β)) (s : State β) : Event → Prop
  | .bridgeStep =>
    match s.bridge with
    | .executing _ _ req =>
      match dispatch s.rest req with
      | some handled => handled.stores = []
      | none => True
    | _ => True
  | _ => True

end Model

/-! ### The invariant -/

section Invariant

variable {β : Type}

/-- Where a request is on its way: nowhere, in a slot that the kernel has taken and filled as far as the list
says, in a slot for the bridge, or answered. -/
inductive Phase where
  | free
  | claimed (slot : ℕ) (stores : List (ℕ × Int32))
  | posted (slot : ℕ) (req : Request)
  | answered (slot : ℕ) (req : Request) (res : Response)

/-- The status of the slots in a phase. -/
def Phase.status : Phase → ℕ → Int32
  | .free, _ | .claimed _ _, _ => 0
  | .posted slot _, i => if i = slot then 1 else 0
  | .answered slot _ _, i => if i = slot then 2 else 0

/-- The position behind the last request that was answered. -/
def front (s : State β) : UInt32 :=
  match s.bridge with
  | .advancing readPos => readPos + 1
  | _ => s.readPos

/-- Where the kernel may be in a phase. -/
def KernelAt : Phase → KernelPc → Prop
  | .free, .idle | .free, .numbered _ _ => True
  | .claimed slot stores, .spinning _ _ slot' => slot = slot' ∧ stores = []
  | .claimed slot stores, .filling req reqId slot' stored =>
    slot = slot' ∧ stores = (requestStores reqId req).take stored
  | .posted slot req, .armed req' slot' | .posted slot req, .sleeping req' slot'
  | .posted slot req, .timedOut req' slot' => slot = slot' ∧ req = req'
  | .answered slot req _, .armed req' slot' | .answered slot req _, .sleeping req' slot'
  | .answered slot req _, .timedOut req' slot' => slot = slot' ∧ req = req'
  | .answered slot req res, .reading req' slot' got =>
    slot = slot' ∧ req = req' ∧ got = res.words.take got.length
  | _, _ => False

/-- The bridge is between two requests. -/
def Resting (s : State β) : Prop :=
  match s.bridge with
  | .top => True
  | .loadedRead readPos | .advancing readPos => readPos = s.readPos
  | _ => False

/-- The bridge is between two requests, or looks at a slot. -/
def Looking (s : State β) : Prop :=
  match s.bridge with
  | .checking readPos => readPos = s.readPos
  | _ => Resting s

/-- No request that was carried out is of the current call. -/
def Fresh (s : State β) : Prop := ∀ e ∈ s.executed, e.call < s.calls

/-- The bridge works on the request in a slot. -/
def Working (s : State β) (slot : ℕ) (req : Request) : Prop :=
  match s.bridge with
  | .loading readPos call got =>
    readPos = s.readPos ∧ call = s.calls ∧ Holds (s.slots slot) (requestOffsets.zip req.words) ∧ Fresh s ∧
      got = req.words.take got.length
  | .executing readPos call req' => readPos = s.readPos ∧ call = s.calls ∧ Fresh s ∧ req' = req
  | .storing readPos res stored =>
    readPos = s.readPos ∧ ⟨s.calls, req, res⟩ ∈ s.executed ∧
      Holds (s.slots slot) ((responseStores res).take stored)
  | .stopped => True
  | _ => Looking s ∧ Fresh s ∧ Holds (s.slots slot) (requestOffsets.zip req.words)

/-- What the ring and the bridge are like in a phase. -/
def BridgeAt (s : State β) : Phase → Prop
  | .free => s.writePos = front s ∧ Resting s
  | .claimed slot stores =>
    s.writePos = front s + 1 ∧ slot = readSlot (front s) ∧ Looking s ∧ Fresh s ∧ Holds (s.slots slot) stores
  | .posted slot req =>
    s.writePos = front s + 1 ∧ slot = readSlot (front s) ∧ s.owner slot = s.calls ∧ Working s slot req
  | .answered slot req res =>
    s.writePos = front s ∧ Resting s ∧ ⟨s.calls, req, res⟩ ∈ s.executed ∧
      Holds (s.slots slot) (responseStores res)

/-- The calls whose requests were carried out, each once. -/
structure History (s : State β) : Prop where
  nodup : (s.executed.map Executed.call).Nodup
  call_le : ∀ e ∈ s.executed, e.call ≤ s.calls
  fresh : ∀ req reqId, s.kernel = .numbered req reqId → Fresh s

/-- The ring is in a phase. -/
structure InPhase (s : State β) (φ : Phase) : Prop where
  status : ∀ slot, status s slot = φ.status slot
  kernel : KernelAt φ s.kernel
  bridge : BridgeAt s φ

/-- The invariant of the ring. -/
structure Inv (s : State β) : Prop where
  history : History s
  phase : ∃ φ, InPhase s φ

/-! ### Words and positions -/

theorem setWord_self (slots : ℕ → ℕ → Int32) (slot off : ℕ) (v : Int32) :
    setWord slots slot off v slot = Function.update (slots slot) off v :=
  Function.update_self _ _ _

theorem setWord_of_ne (slots : ℕ → ℕ → Int32) {slot i : ℕ} (h : i ≠ slot) (off : ℕ) (v : Int32) :
    setWord slots slot off v i = slots i :=
  Function.update_of_ne h _ _

/-- A store of another word leaves every status. -/
theorem setWord_status (slots : ℕ → ℕ → Int32) (slot : ℕ) {off : ℕ} (h : off ≠ slotStatus) (v : Int32)
    (i : ℕ) : setWord slots slot off v i slotStatus = slots i slotStatus := by
  rcases eq_or_ne i slot with rfl | hne
  · rw [setWord_self, Function.update_of_ne h.symm]
  · rw [setWord_of_ne slots hne]

/-- A store of a status. -/
theorem setWord_slotStatus (slots : ℕ → ℕ → Int32) (slot : ℕ) (v : Int32) (i : ℕ) :
    setWord slots slot slotStatus v i slotStatus = if i = slot then v else slots i slotStatus := by
  rcases eq_or_ne i slot with rfl | hne
  · rw [setWord_self, Function.update_self, if_pos rfl]
  · rw [setWord_of_ne slots hne, if_neg hne]

/-- Where the kernel finds a slot, it is the one that the bridge looks at. -/
theorem slotIndex_eq {w : UInt32} {slot : ℕ} (h : slotIndex w = some slot) : slot = readSlot w := by
  have hlt : w.toNat < 2 ^ 32 := w.toNat_lt
  have hint : w.toInt32.toInt =
      if 2 * w.toNat < 2 ^ 32 then (w.toNat : Int) else (w.toNat : Int) - (2 ^ 32 : Nat) :=
    BitVec.toInt_eq_toNat_cond _
  have hmod : w.toInt32.toInt.tmod 32 = _ := Int.tmod_eq_emod
  obtain ⟨hnonneg, hslot⟩ : 0 ≤ w.toInt32.toInt.tmod 32 ∧ (w.toInt32.toInt.tmod 32).toNat = slot := by
    unfold slotIndex at h
    dsimp only at h
    split_ifs at h with hnonneg
    exact ⟨hnonneg, Option.some_inj.1 h⟩
  show slot = w.toNat % 32
  -- a negative position has a remainder below zero unless 32 divides it
  split_ifs at hint hmod <;> omega

theorem requestStores_keys (id : Int32) (r : Request) :
    ((requestStores id r).map Prod.fst).Nodup ∧ slotStatus ∉ (requestStores id r).map Prod.fst := by
  simp [requestStores, slotStatus]

theorem responseStores_keys (r : Response) :
    ((responseStores r).map Prod.fst).Nodup ∧ slotStatus ∉ (responseStores r).map Prod.fst := by
  simp [responseStores, responseOffsets, Response.words, slotStatus]

theorem requestLoads_subset (id : Int32) (r : Request) :
    requestOffsets.zip r.words ⊆ requestStores id r := by
  intro p hp
  simp only [requestOffsets, Request.words, List.zip_cons_cons, List.zip_nil_right] at hp
  simp only [requestStores, List.mem_cons] at hp ⊢
  tauto

/-! ### The kernel's steps -/

variable {s : State β}

theorem inv_of_starts (h : Starts s) : Inv s := by
  have hfront : front s = 0 := by
    unfold front
    rw [h.bridge]
    exact h.readPos
  constructor
  · refine ⟨by rw [h.executed]; exact List.nodup_nil, ?_, ?_⟩
    · rw [h.executed]
      intro e he
      cases he
    · intro req reqId hpc
      rw [h.kernel] at hpc
      cases hpc
  · refine ⟨.free, fun slot => h.slots slot slotStatus, by rw [h.kernel]; trivial, ?_⟩
    refine ⟨by rw [h.writePos, hfront], ?_⟩
    unfold Resting
    rw [h.bridge]
    trivial

/-- The history does not change while no call starts and no request is carried out. -/
theorem History.of_eq {s' : State β} (h : History s) (hex : s'.executed = s.executed)
    (hcalls : s'.calls = s.calls) (hk : ∀ req reqId, s'.kernel = .numbered req reqId → s.kernel = s'.kernel) :
    History s' where
  nodup := by
    rw [hex]
    exact h.nodup
  call_le := by
    rw [hex, hcalls]
    exact h.call_le
  fresh req reqId hpc := by
    have hfresh := h.fresh req reqId ((hk req reqId hpc).trans hpc)
    unfold Fresh
    rw [hex, hcalls]
    exact hfresh

theorem inv_call (h : Inv s) (req : Request) : Inv (call s req) := by
  unfold call
  split
  · rename_i hpc
    obtain ⟨φ, hφ⟩ := h.phase
    have hk := hφ.kernel
    rw [hpc] at hk
    cases φ with
    | free =>
      have hold := h.history.call_le
      have hfresh : ∀ e ∈ s.executed, e.call < s.calls + 1 := fun e he => Nat.lt_succ_of_le (hold e he)
      exact ⟨⟨h.history.nodup, fun e he => Nat.le_of_lt (hfresh e he), fun _ _ _ => hfresh⟩,
        .free, hφ.status, trivial, hφ.bridge⟩
    | claimed slot stores => exact hk.elim
    | posted slot req => exact hk.elim
    | answered slot req res => exact hk.elim
  · exact h

theorem Resting.looking (h : Resting s) : Looking s := by
  unfold Looking
  split
  · rename_i hpc
    unfold Resting at h
    rw [hpc] at h
    exact h.elim
  · exact h

/-- A bridge that looks at the slots finds the request. -/
theorem Looking.working (h : Looking s) {slot : ℕ} {req : Request} (hfresh : Fresh s)
    (hholds : Holds (s.slots slot) (requestOffsets.zip req.words)) : Working s slot req := by
  unfold Looking Resting at h
  unfold Working
  split
  all_goals first
    | exact ⟨h, hfresh, hholds⟩
    | (rename_i hpc
       rw [hpc] at h
       exact h.elim)

theorem inv_numbered (h : Inv s) {req : Request} {reqId : Int32} (hpc : s.kernel = .numbered req reqId)
    {slot : ℕ} (hslot : slotIndex s.writePos = some slot) :
    Inv { s with writePos := s.writePos + 1, kernel := .spinning req reqId slot } := by
  obtain ⟨φ, hφ⟩ := h.phase
  have hk := hφ.kernel
  rw [hpc] at hk
  cases φ with
  | free =>
    obtain ⟨hpos, hrest⟩ := hφ.bridge
    refine ⟨h.history.of_eq rfl rfl (fun _ _ heq => by cases heq), .claimed slot [], hφ.status, ⟨rfl, rfl⟩, ?_⟩
    refine ⟨congrArg (· + 1) hpos, ?_, hrest.looking, h.history.fresh req reqId hpc, holds_nil _⟩
    rw [slotIndex_eq hslot, hpos]
    rfl
  | claimed slot stores => exact hk.elim
  | posted slot req => exact hk.elim
  | answered slot req res => exact hk.elim

theorem inv_spinning (h : Inv s) {req : Request} {reqId : Int32} {slot : ℕ}
    (hpc : s.kernel = .spinning req reqId slot) : Inv { s with kernel := .filling req reqId slot 0 } := by
  obtain ⟨φ, hφ⟩ := h.phase
  have hk := hφ.kernel
  rw [hpc] at hk
  cases φ with
  | claimed slot' stores =>
    obtain ⟨rfl, rfl⟩ := hk
    exact ⟨h.history.of_eq rfl rfl (fun _ _ heq => by cases heq), .claimed slot' [], hφ.status, ⟨rfl, rfl⟩,
      hφ.bridge⟩
  | free => exact hk.elim
  | posted slot req => exact hk.elim
  | answered slot req res => exact hk.elim

/-- The kernel stores one more word of the request. -/
theorem inv_filling (h : Inv s) {req : Request} {reqId : Int32} {slot stored : ℕ}
    (hpc : s.kernel = .filling req reqId slot stored) {p : ℕ × Int32}
    (hp : (requestStores reqId req)[stored]? = some p) :
    Inv { s with slots := setWord s.slots slot p.1 p.2, kernel := .filling req reqId slot (stored + 1) } := by
  obtain ⟨φ, hφ⟩ := h.phase
  have hk := hφ.kernel
  rw [hpc] at hk
  obtain ⟨hkeys, hstatus⟩ := requestStores_keys reqId req
  have hne : p.1 ≠ slotStatus := by
    intro heq
    exact hstatus (heq ▸ List.mem_map_of_mem (List.mem_of_getElem? hp))
  cases φ with
  | claimed slot' stores =>
    obtain ⟨rfl, rfl⟩ := hk
    obtain ⟨hpos, hslot, hlook, hfresh, hholds⟩ := hφ.bridge
    refine ⟨h.history.of_eq rfl rfl (fun _ _ heq => by cases heq),
      .claimed slot' ((requestStores reqId req).take (stored + 1)), fun i => ?_, ⟨rfl, rfl⟩,
      hpos, hslot, hlook, hfresh, ?_⟩
    · exact (setWord_status _ _ hne _ i).trans (hφ.status i)
    · show Holds (setWord s.slots slot' p.1 p.2 slot') _
      rw [setWord_self]
      exact hholds.store hkeys hp
  | free => exact hk.elim
  | posted slot req => exact hk.elim
  | answered slot req res => exact hk.elim

/-- The kernel has stored the request and sets the status. -/
theorem inv_filled (h : Inv s) {req : Request} {reqId : Int32} {slot stored : ℕ}
    (hpc : s.kernel = .filling req reqId slot stored) (hp : (requestStores reqId req)[stored]? = none) :
    Inv { s with
      slots := setWord s.slots slot slotStatus 1
      owner := Function.update s.owner slot s.calls
      kernel := .armed req slot } := by
  obtain ⟨φ, hφ⟩ := h.phase
  have hk := hφ.kernel
  rw [hpc] at hk
  cases φ with
  | claimed slot' stores =>
    obtain ⟨rfl, rfl⟩ := hk
    obtain ⟨hpos, hslot, hlook, hfresh, hholds⟩ := hφ.bridge
    have hall : (requestStores reqId req).take stored = requestStores reqId req :=
      List.take_of_length_le (List.getElem?_eq_none_iff.1 hp)
    rw [hall] at hholds
    refine ⟨h.history.of_eq rfl rfl (fun _ _ heq => by cases heq), .posted slot' req, fun i => ?_,
      ⟨rfl, rfl⟩, hpos, hslot, Function.update_self _ _ _, ?_⟩
    · refine (setWord_slotStatus _ _ _ i).trans ?_
      show _ = if i = slot' then (1 : Int32) else 0
      rw [show s.slots i slotStatus = 0 from hφ.status i]
    · refine Looking.working ?_ ?_ ?_
      · exact hlook
      · exact hfresh
      show Holds (setWord s.slots slot' slotStatus 1 slot') _
      rw [setWord_self]
      exact (hholds.update (requestStores_keys reqId req).2 1).mono (requestLoads_subset reqId req)
  | free => exact hk.elim
  | posted slot req => exact hk.elim
  | answered slot req res => exact hk.elim

/-- A status tells the phase. -/
theorem InPhase.status_self {φ : Phase} (h : InPhase s φ) {slot : ℕ} :
    (∀ req, φ = .posted slot req → BridgeRing.status s slot = 1) ∧
      (∀ req res, φ = .answered slot req res → BridgeRing.status s slot = 2) := by
  refine ⟨?_, ?_⟩
  · rintro req rfl
    exact (h.status slot).trans (if_pos rfl)
  · rintro req res rfl
    exact (h.status slot).trans (if_pos rfl)

theorem inv_armed (h : Inv s) {req : Request} {slot : ℕ} (hpc : s.kernel = .armed req slot) :
    Inv { s with kernel := if status s slot = 1 then .sleeping req slot else .reading req slot [] } := by
  obtain ⟨φ, hφ⟩ := h.phase
  have hk := hφ.kernel
  rw [hpc] at hk
  have hst := @InPhase.status_self _ _ _ hφ slot
  cases φ with
  | posted slot' req' =>
    obtain ⟨rfl, rfl⟩ := hk
    rw [hst.1 req' rfl, if_pos rfl]
    exact ⟨h.history.of_eq rfl rfl (fun _ _ heq => by cases heq), .posted slot' req', hφ.status, ⟨rfl, rfl⟩,
      hφ.bridge⟩
  | answered slot' req' res =>
    obtain ⟨rfl, rfl⟩ := hk
    rw [hst.2 req' res rfl, if_neg (by decide)]
    exact ⟨h.history.of_eq rfl rfl (fun _ _ heq => by cases heq), .answered slot' req' res, hφ.status,
      ⟨rfl, rfl, rfl⟩, hφ.bridge⟩
  | free => exact hk.elim
  | claimed slot stores => exact hk.elim

theorem inv_timeout (h : Inv s) : Inv (timeout s) := by
  unfold timeout
  split
  · rename_i req slot hpc
    obtain ⟨φ, hφ⟩ := h.phase
    have hk := hφ.kernel
    rw [hpc] at hk
    refine ⟨h.history.of_eq rfl rfl (fun _ _ heq => by cases heq), φ, hφ.status, ?_, ?_⟩
    · cases φ with
      | posted slot' req' => exact hk
      | answered slot' req' res => exact hk
      | free => exact hk.elim
      | claimed slot stores => exact hk.elim
    · cases φ <;> exact hφ.bridge
  · exact h

/-- An answered slot is freed. -/
theorem inv_free (h : Inv s) {slot : ℕ} {req : Request} {res : Response} (hφ : InPhase s (.answered slot req res)) :
    Inv { s with slots := setWord s.slots slot slotStatus 0, kernel := .idle } := by
  obtain ⟨hpos, hrest, -, -⟩ := hφ.bridge
  refine ⟨h.history.of_eq rfl rfl (fun _ _ heq => by cases heq), .free, fun i => ?_, trivial, hpos, hrest⟩
  refine (setWord_slotStatus _ _ _ i).trans ?_
  show _ = (0 : Int32)
  split_ifs with hi
  · rfl
  · exact (hφ.status i).trans (if_neg hi)

theorem inv_timedOut (h : Inv s) {req : Request} {slot : ℕ} (hpc : s.kernel = .timedOut req slot)
    (hst : status s slot = 2) : Inv { s with slots := setWord s.slots slot slotStatus 0, kernel := .idle } := by
  obtain ⟨φ, hφ⟩ := h.phase
  have hk := hφ.kernel
  rw [hpc] at hk
  cases φ with
  | posted slot' req' =>
    obtain ⟨rfl, rfl⟩ := hk
    rw [(@InPhase.status_self _ _ _ hφ slot').1 req' rfl] at hst
    exact absurd hst (by decide)
  | answered slot' req' res =>
    obtain ⟨rfl, rfl⟩ := hk
    exact inv_free h hφ
  | free => exact hk.elim
  | claimed slot stores => exact hk.elim

/-- A call that reads has the first words of the response. -/
theorem InPhase.reading {φ : Phase} (hφ : InPhase s φ) {req : Request} {slot : ℕ} {got : List Int32}
    (hpc : s.kernel = .reading req slot got) :
    ∃ res, φ = .answered slot req res ∧ got = res.words.take got.length := by
  have hk := hφ.kernel
  rw [hpc] at hk
  cases φ with
  | answered slot' req' res =>
    obtain ⟨rfl, rfl, hgot⟩ := hk
    exact ⟨res, rfl, hgot⟩
  | free => exact hk.elim
  | claimed slot stores => exact hk.elim
  | posted slot req => exact hk.elim

theorem inv_reading (h : Inv s) {req : Request} {slot : ℕ} {got : List Int32}
    (hpc : s.kernel = .reading req slot got) {off : ℕ} (hoff : responseOffsets[got.length]? = some off) :
    Inv { s with kernel := .reading req slot (got ++ [s.slots slot off]) } := by
  obtain ⟨φ, hφ⟩ := h.phase
  obtain ⟨res, rfl, hgot⟩ := hφ.reading hpc
  obtain ⟨hpos, hrest, hmem, hholds⟩ := hφ.bridge
  exact ⟨h.history.of_eq rfl rfl (fun _ _ heq => by cases heq), .answered slot req res, hφ.status,
    ⟨rfl, rfl, hholds.take_load rfl hgot hoff⟩, hpos, hrest, hmem, hholds⟩

/-- What the kernel's step keeps. -/
theorem inv_kernelStep (h : Inv s) (htime : InTime s .kernelStep) (hrange : InRange s .kernelStep) :
    Inv (kernelStep s) := by
  unfold kernelStep
  split
  · exact h
  · rename_i req reqId hpc
    simp only [InRange, hpc] at hrange
    obtain ⟨slot, hslot⟩ := Option.ne_none_iff_exists'.1 hrange
    rw [hslot]
    exact inv_numbered h hpc hslot
  · rename_i req reqId slot hpc
    split
    · exact inv_spinning h hpc
    · exact h
  · rename_i req reqId slot stored hpc
    split
    · rename_i off v hp
      exact inv_filling h hpc hp
    · rename_i hp
      exact inv_filled h hpc hp
  · rename_i req slot hpc
    exact inv_armed h hpc
  · exact h
  · rename_i req slot hpc
    simp only [InTime, hpc] at htime
    exact inv_timedOut h hpc htime
  · rename_i req slot got hpc
    split
    · rename_i off hoff
      exact inv_reading h hpc hoff
    · obtain ⟨φ, hφ⟩ := h.phase
      obtain ⟨res, rfl, -⟩ := hφ.reading hpc
      exact inv_free h hφ

/-! ### The bridge's steps -/

/-- A step of the bridge that leaves the kernel, the slots and the history. -/
theorem Inv.of_bridge {s' : State β} (h : Inv s) (hkernel : s'.kernel = s.kernel) (hslots : s'.slots = s.slots)
    (hex : s'.executed = s.executed) (hcalls : s'.calls = s.calls)
    (hbridge : ∀ φ, InPhase s φ → BridgeAt s' φ) : Inv s' := by
  obtain ⟨φ, hφ⟩ := h.phase
  refine ⟨h.history.of_eq hex hcalls (fun _ _ _ => hkernel.symm), φ, fun slot => ?_, ?_, hbridge φ hφ⟩
  · unfold BridgeRing.status
    rw [hslots]
    exact hφ.status slot
  · rw [hkernel]
    exact hφ.kernel

/-- A bridge that looks at the slots has not begun to work. -/
theorem Working.looks {slot : ℕ} {req : Request} (h : Working s slot req) (hlook : Looking s) :
    Fresh s ∧ Holds (s.slots slot) (requestOffsets.zip req.words) := by
  unfold Looking Resting at hlook
  unfold Working at h
  cases hpc : s.bridge with
  | top =>
    rw [hpc] at h
    exact h.2
  | loadedRead readPos =>
    rw [hpc] at h
    exact h.2
  | checking readPos =>
    rw [hpc] at h
    exact h.2
  | advancing readPos =>
    rw [hpc] at h
    exact h.2
  | loading readPos call got =>
    rw [hpc] at hlook
    exact hlook.elim
  | executing readPos call req =>
    rw [hpc] at hlook
    exact hlook.elim
  | storing readPos res stored =>
    rw [hpc] at hlook
    exact hlook.elim
  | stopped =>
    rw [hpc] at hlook
    exact hlook.elim

/-- A step from one look at the slots to another one keeps what is known of the ring. -/
theorem BridgeAt.look {s' : State β} {φ : Phase} (h : BridgeAt s φ) (hlook : Looking s)
    (hfront : front s' = front s) (hpos : s'.writePos = s.writePos) (hslots : s'.slots = s.slots)
    (howner : s'.owner = s.owner) (hcalls : s'.calls = s.calls) (hex : s'.executed = s.executed)
    (hrest : Resting s → s.writePos = front s → Resting s')
    (hlook' : s.writePos = front s + 1 → Looking s') : BridgeAt s' φ := by
  have hfresh : Fresh s → Fresh s' := by
    unfold Fresh
    rw [hcalls, hex]
    exact id
  cases φ with
  | free =>
    obtain ⟨hp, hr⟩ := h
    exact ⟨by rw [hpos, hfront, hp], hrest hr hp⟩
  | claimed slot stores =>
    obtain ⟨hp, hslot, -, hf, hholds⟩ := h
    exact ⟨by rw [hpos, hfront, hp], by rw [hfront, hslot], hlook' hp, hfresh hf, by rw [hslots]; exact hholds⟩
  | posted slot req =>
    obtain ⟨hp, hslot, ho, hw⟩ := h
    obtain ⟨hf, hholds⟩ := hw.looks hlook
    refine ⟨by rw [hpos, hfront, hp], by rw [hfront, hslot], by rw [howner, hcalls, ho], ?_⟩
    exact (hlook' hp).working (hfresh hf) (by rw [hslots]; exact hholds)
  | answered slot req res =>
    obtain ⟨hp, hr, hmem, hholds⟩ := h
    exact ⟨by rw [hpos, hfront, hp], hrest hr hp, by rw [hcalls, hex]; exact hmem, by rw [hslots]; exact hholds⟩

/-- The bridge has found a request. -/
def BridgePc.Works : BridgePc → Prop
  | .loading _ _ _ | .executing _ _ _ | .storing _ _ _ => True
  | _ => False

/-- A bridge that works is neither looking nor past its position. -/
theorem not_looking_of_works (h : s.bridge.Works) : ¬ Looking s ∧ front s = s.readPos := by
  unfold Looking Resting front
  cases hpc : s.bridge with
  | loading readPos call got => exact ⟨id, rfl⟩
  | executing readPos call req => exact ⟨id, rfl⟩
  | storing readPos res stored => exact ⟨id, rfl⟩
  | top => exact (hpc ▸ h).elim
  | loadedRead readPos => exact (hpc ▸ h).elim
  | checking readPos => exact (hpc ▸ h).elim
  | advancing readPos => exact (hpc ▸ h).elim
  | stopped => exact (hpc ▸ h).elim

/-- A bridge that works has the request of the call. -/
theorem InPhase.posted {φ : Phase} (h : InPhase s φ) (hworks : s.bridge.Works) :
    ∃ slot req, φ = .posted slot req ∧ s.writePos = s.readPos + 1 ∧ slot = readSlot s.readPos ∧
      s.owner slot = s.calls ∧ Working s slot req := by
  obtain ⟨hlook, hfront⟩ := not_looking_of_works hworks
  have hb := h.bridge
  cases φ with
  | free => exact absurd hb.2.looking hlook
  | claimed slot stores => exact absurd hb.2.2.1 hlook
  | posted slot req =>
    obtain ⟨hpos, hslot, howner, hw⟩ := hb
    exact ⟨slot, req, rfl, by rw [hpos, hfront], by rw [hslot, hfront], howner, hw⟩
  | answered slot req res => exact absurd hb.2.1.looking hlook

/-- Where the bridge looks, unless it works. -/
theorem BridgeAt.looking {φ : Phase} (h : BridgeAt s φ) (hw : ∀ slot req, Working s slot req → Looking s) :
    Looking s := by
  cases φ with
  | free => exact h.2.looking
  | claimed slot stores => exact h.2.2.1
  | posted slot req => exact hw slot req h.2.2.2
  | answered slot req res => exact h.2.1.looking

theorem inv_top (h : Inv s) (hpc : s.bridge = .top) : Inv { s with bridge := .loadedRead s.readPos } := by
  refine h.of_bridge rfl rfl rfl rfl fun φ hφ => ?_
  have hlook : Looking s := by
    unfold Looking Resting
    rw [hpc]
    trivial
  refine hφ.bridge.look hlook ?_ rfl rfl rfl rfl rfl (fun _ _ => rfl) (fun _ => rfl)
  unfold front
  rw [hpc]

theorem inv_loadedRead (h : Inv s) {readPos : UInt32} (hpc : s.bridge = .loadedRead readPos) :
    Inv { s with bridge := if readPos = s.writePos then .top else .checking readPos } := by
  refine h.of_bridge rfl rfl rfl rfl fun φ hφ => ?_
  have hlook : Looking s := hφ.bridge.looking fun slot req hw => by
    unfold Working at hw
    rw [hpc] at hw
    exact hw.1
  have hread : readPos = s.readPos := by
    unfold Looking Resting at hlook
    rw [hpc] at hlook
    exact hlook
  have hfront : front s = s.readPos := by
    unfold front
    rw [hpc]
  split_ifs with hpos
  · refine hφ.bridge.look hlook ?_ rfl rfl rfl rfl rfl (fun _ _ => trivial) (fun _ => trivial)
    rw [hfront]
    rfl
  · refine hφ.bridge.look hlook ?_ rfl rfl rfl rfl rfl (fun _ hp => ?_) (fun _ => hread)
    · rw [hfront]
      rfl
    · exact absurd (by rw [hp, hfront, hread]) hpos

/-- The bridge begins to load only where a request is for it. -/
theorem inv_checking (h : Inv s) {readPos : UInt32} (hpc : s.bridge = .checking readPos) :
    Inv { s with
      bridge :=
        if status s (readSlot readPos) = 1 then .loading readPos (s.owner (readSlot readPos)) [] else .top } := by
  refine h.of_bridge rfl rfl rfl rfl fun φ hφ => ?_
  have hlook : Looking s := hφ.bridge.looking fun slot req hw => by
    unfold Working at hw
    rw [hpc] at hw
    exact hw.1
  have hread : readPos = s.readPos := by
    unfold Looking at hlook
    rw [hpc] at hlook
    exact hlook
  have hfront : front s = s.readPos := by
    unfold front
    rw [hpc]
  split_ifs with hst
  · have hb := hφ.bridge
    have hnone : ¬ Resting s := by
      unfold Resting
      rw [hpc]
      exact id
    rw [hφ.status] at hst
    -- only a posted request has the status 1 while the bridge looks
    cases φ with
    | posted slot req =>
      obtain ⟨hpos, hslot, howner, hw⟩ := hb
      obtain ⟨hfresh, hholds⟩ := hw.looks hlook
      have hslot' : readSlot readPos = slot := by rw [hslot, hfront, hread]
      refine ⟨?_, ?_, howner, hread, ?_, hholds, hfresh, rfl⟩
      · rw [hpos, hfront]
        rfl
      · rw [hslot, hfront]
        rfl
      · rw [hslot']
        exact howner
    | free => exact absurd hb.2 hnone
    | claimed slot stores => exact absurd hst (show (0 : Int32) ≠ 1 by decide)
    | answered slot req res => exact absurd hb.2.1 hnone
  · refine hφ.bridge.look hlook ?_ rfl rfl rfl rfl rfl (fun _ _ => trivial) (fun _ => trivial)
    rw [hfront]
    rfl

theorem inv_advancing (h : Inv s) {readPos : UInt32} (hpc : s.bridge = .advancing readPos) :
    Inv { s with readPos := readPos + 1, bridge := .top } := by
  refine h.of_bridge rfl rfl rfl rfl fun φ hφ => ?_
  have hlook : Looking s := hφ.bridge.looking fun slot req hw => by
    unfold Working at hw
    rw [hpc] at hw
    exact hw.1
  refine hφ.bridge.look hlook ?_ rfl rfl rfl rfl rfl (fun _ _ => trivial) (fun _ => trivial)
  unfold front
  rw [hpc]

/-- The bridge loads one more word. -/
theorem inv_loading (h : Inv s) {readPos : UInt32} {call : ℕ} {got : List Int32}
    (hpc : s.bridge = .loading readPos call got) {off : ℕ} (hoff : requestOffsets[got.length]? = some off) :
    Inv { s with bridge := .loading readPos call (got ++ [s.slots (readSlot readPos) off]) } := by
  refine h.of_bridge rfl rfl rfl rfl fun φ hφ => ?_
  obtain ⟨slot, req, rfl, hpos, hslot, howner, hw⟩ := hφ.posted (by rw [hpc]; trivial)
  unfold Working at hw
  rw [hpc] at hw
  obtain ⟨hread, hcall, hholds, hfresh, hgot⟩ := hw
  refine ⟨hpos, hslot, howner, hread, hcall, hholds, hfresh, ?_⟩
  rw [hread, ← hslot]
  exact hholds.take_load rfl hgot hoff

theorem inv_loaded (h : Inv s) {readPos : UInt32} {call : ℕ} {got : List Int32}
    (hpc : s.bridge = .loading readPos call got) (hoff : requestOffsets[got.length]? = none) :
    Inv { s with bridge := .executing readPos call (.ofWords got) } := by
  refine h.of_bridge rfl rfl rfl rfl fun φ hφ => ?_
  obtain ⟨slot, req, rfl, hpos, hslot, howner, hw⟩ := hφ.posted (by rw [hpc]; trivial)
  unfold Working at hw
  rw [hpc] at hw
  obtain ⟨hread, hcall, hholds, hfresh, hgot⟩ := hw
  refine ⟨hpos, hslot, howner, hread, hcall, hfresh, ?_⟩
  have hall : got = req.words := @eq_of_take _ requestOffsets _ _ rfl hgot hoff
  rw [hall]
  rfl

/-- The bridge carries the request out. -/
theorem inv_executing (h : Inv s) {readPos : UInt32} {call : ℕ} {req : Request}
    (hpc : s.bridge = .executing readPos call req) (res : Response) (rest : β) :
    Inv { s with
      rest := rest
      executed := s.executed ++ [⟨call, req, res⟩]
      bridge := .storing readPos res 0 } := by
  obtain ⟨φ, hφ⟩ := h.phase
  obtain ⟨slot, req', rfl, hpos, hslot, howner, hw⟩ := hφ.posted (by rw [hpc]; trivial)
  unfold Working at hw
  rw [hpc] at hw
  obtain ⟨hread, rfl, hfresh, rfl⟩ := hw
  constructor
  · constructor
    · show ((s.executed ++ [(⟨s.calls, req, res⟩ : Executed)]).map Executed.call).Nodup
      rw [List.map_append, List.map_singleton, List.nodup_append]
      refine ⟨h.history.nodup, List.nodup_singleton _, ?_⟩
      intro c hc c' hc' heq
      obtain ⟨e, he, rfl⟩ := List.mem_map.1 hc
      have hlt := hfresh e he
      rw [List.mem_singleton.1 hc'] at heq
      exact absurd heq (Nat.ne_of_lt hlt)
    · intro e he
      rcases List.mem_append.1 he with he | he
      · exact h.history.call_le e he
      · exact Nat.le_of_eq (congrArg Executed.call (List.mem_singleton.1 he))
    · intro req' reqId hk
      have hkernel := hφ.kernel
      rw [show s.kernel = .numbered req' reqId from hk] at hkernel
      exact hkernel.elim
  · refine ⟨.posted slot req, hφ.status, hφ.kernel, hpos, hslot, howner, hread, ?_, ?_⟩
    · exact List.mem_append_right _ (List.mem_singleton_self _)
    · exact holds_nil _

/-- The bridge stores one more word of the response. -/
theorem inv_storing (h : Inv s) {readPos : UInt32} {res : Response} {stored : ℕ}
    (hpc : s.bridge = .storing readPos res stored) {p : ℕ × Int32}
    (hp : (responseStores res)[stored]? = some p) :
    Inv { s with
      slots := setWord s.slots (readSlot readPos) p.1 p.2
      bridge := .storing readPos res (stored + 1) } := by
  obtain ⟨φ, hφ⟩ := h.phase
  obtain ⟨slot, req, rfl, hpos, hslot, howner, hw⟩ := hφ.posted (by rw [hpc]; trivial)
  unfold Working at hw
  rw [hpc] at hw
  obtain ⟨rfl, hmem, hholds⟩ := hw
  obtain ⟨hkeys, hstatus⟩ := responseStores_keys res
  have hne : p.1 ≠ slotStatus := by
    intro heq
    exact hstatus (heq ▸ List.mem_map_of_mem (List.mem_of_getElem? hp))
  refine ⟨h.history.of_eq rfl rfl (fun _ _ _ => rfl), .posted slot req, fun i => ?_, hφ.kernel, hpos, hslot,
    howner, rfl, hmem, ?_⟩
  · exact (setWord_status _ _ hne _ i).trans (hφ.status i)
  · show Holds (setWord s.slots (readSlot s.readPos) p.1 p.2 slot) _
    rw [← hslot, setWord_self]
    exact hholds.store hkeys hp

/-- The bridge has stored the response and sets the status. -/
theorem inv_stored (h : Inv s) {readPos : UInt32} {res : Response} {stored : ℕ}
    (hpc : s.bridge = .storing readPos res stored) (hp : (responseStores res)[stored]? = none) :
    Inv { s with slots := setWord s.slots (readSlot readPos) slotStatus 2, bridge := .advancing readPos } := by
  obtain ⟨φ, hφ⟩ := h.phase
  obtain ⟨slot, req, rfl, hpos, hslot, howner, hw⟩ := hφ.posted (by rw [hpc]; trivial)
  unfold Working at hw
  rw [hpc] at hw
  obtain ⟨rfl, hmem, hholds⟩ := hw
  have hall : (responseStores res).take stored = responseStores res :=
    List.take_of_length_le (List.getElem?_eq_none_iff.1 hp)
  rw [hall] at hholds
  -- from here on the slot is answered
  refine ⟨h.history.of_eq rfl rfl (fun _ _ _ => rfl), .answered slot req res, fun i => ?_, ?_, hpos, rfl, hmem,
    ?_⟩
  · refine (setWord_slotStatus _ _ _ i).trans ?_
    rw [← hslot]
    show _ = if i = slot then (2 : Int32) else 0
    split_ifs with hi
    · rfl
    · exact (hφ.status i).trans (if_neg hi)
  · have hk := hφ.kernel
    show KernelAt _ s.kernel
    -- a posted request finds the kernel asleep, about to sleep, or past its time
    cases hpc' : s.kernel with
    | armed req' slot' =>
      rw [hpc'] at hk
      exact hk
    | sleeping req' slot' =>
      rw [hpc'] at hk
      exact hk
    | timedOut req' slot' =>
      rw [hpc'] at hk
      exact hk
    | idle =>
      rw [hpc'] at hk
      exact hk.elim
    | numbered req' reqId =>
      rw [hpc'] at hk
      exact hk.elim
    | spinning req' reqId slot' =>
      rw [hpc'] at hk
      exact hk.elim
    | filling req' reqId slot' stored =>
      rw [hpc'] at hk
      exact hk.elim
    | reading req' slot' got =>
      rw [hpc'] at hk
      exact hk.elim
  · show Holds (setWord s.slots (readSlot s.readPos) slotStatus 2 slot) _
    rw [← hslot, setWord_self]
    exact hholds.update (responseStores_keys res).2 2

theorem inv_stopped (h : Inv s) {readPos : UInt32} {call : ℕ} {req : Request}
    (hpc : s.bridge = .executing readPos call req) : Inv { s with bridge := .stopped } := by
  refine h.of_bridge rfl rfl rfl rfl fun φ hφ => ?_
  obtain ⟨slot, req', rfl, hpos, hslot, howner, -⟩ := hφ.posted (by rw [hpc]; trivial)
  exact ⟨hpos, hslot, howner, trivial⟩

/-- What the bridge's step keeps. -/
theorem inv_bridgeStep {dispatch : β → Request → Option (Handled β)} (h : Inv s)
    (hstray : NoStray dispatch s .bridgeStep) : Inv (bridgeStep dispatch s) := by
  unfold bridgeStep
  split
  · rename_i hpc
    exact inv_top h hpc
  · rename_i readPos hpc
    exact inv_loadedRead h hpc
  · rename_i readPos hpc
    exact inv_checking h hpc
  · rename_i readPos call got hpc
    split
    · rename_i off hoff
      exact inv_loading h hpc hoff
    · rename_i hoff
      exact inv_loaded h hpc hoff
  · rename_i readPos call req hpc
    simp only [NoStray, hpc] at hstray
    split
    · rename_i handled hd
      rw [hd] at hstray
      rw [hstray]
      exact inv_executing h hpc handled.res handled.rest
    · exact inv_stopped h hpc
  · rename_i readPos res stored hpc
    split
    · rename_i off v hp
      exact inv_storing h hpc hp
    · rename_i hp
      exact inv_stored h hpc hp
  · rename_i readPos hpc
    exact inv_advancing h hpc
  · exact h

/-- **Every event keeps the invariant**, if a timeout does not free a slot that the bridge has not answered. -/
theorem inv_after {dispatch : β → Request → Option (Handled β)} {ev : Event} (h : Inv s) (htime : InTime s ev)
    (hrange : InRange s ev) (hstray : NoStray dispatch s ev) : Inv (after dispatch s ev) := by
  cases ev with
  | call req => exact inv_call h req
  | kernelStep => exact inv_kernelStep h htime hrange
  | bridgeStep => exact inv_bridgeStep h hstray
  | timeout => exact inv_timeout h

/-! ### Runs -/

theorem Inv.settled (h : Inv s) : Settled s := by
  intro hidle hpolls
  obtain ⟨φ, hφ⟩ := h.phase
  have hk := hφ.kernel
  rw [hidle] at hk
  cases φ with
  | free =>
    obtain ⟨hpos, hrest⟩ := hφ.bridge
    refine ⟨fun slot _ => hφ.status slot, ?_⟩
    unfold Polls at hpolls
    unfold Resting at hrest
    unfold front at hpos
    cases hpc : s.bridge with
    | top => simpa only [hpc] using hpos.symm
    | loadedRead readPos => simpa only [hpc] using hpos.symm
    | checking readPos => exact (hpc ▸ hrest).elim
    | loading readPos call got => exact (hpc ▸ hrest).elim
    | executing readPos call req => exact (hpc ▸ hrest).elim
    | storing readPos res stored => exact (hpc ▸ hrest).elim
    | advancing readPos => exact (hpc ▸ hpolls).elim
    | stopped => exact (hpc ▸ hrest).elim
  | claimed slot stores => exact hk.elim
  | posted slot req => exact hk.elim
  | answered slot req res => exact hk.elim

theorem Inv.answers (h : Inv s) (ev : Event) (s' : State β) : Answers s ev s' := by
  rintro rfl req res hret
  unfold returned at hret
  split at hret
  · rename_i req' slot got hpc
    split at hret
    · cases hret
    · rename_i hlen
      obtain ⟨rfl, rfl⟩ : req' = req ∧ Response.ofWords got = res := by simpa using hret
      obtain ⟨φ, hφ⟩ := h.phase
      obtain ⟨res, rfl, hgot⟩ := hφ.reading hpc
      have hall : got = res.words := by
        refine @eq_of_take _ responseOffsets _ _ rfl hgot (List.getElem?_eq_none_iff.2 ?_)
        omega
      obtain ⟨-, -, hmem, -⟩ := hφ.bridge
      rw [hall]
      exact hmem
  · cases hret

/-- **The request ring.**  In every run in which a timeout frees only slots that are answered, the positions
that the kernel takes are numbers of slots, and no handler stores into the slots, every call that does not time
out returns the response to its own request, no request is carried out twice, and after the last call the
slots are free and the positions agree. -/
theorem ring_of_meets {dispatch : β → Request → Option (Handled β)} {tr : List (Event × State β)}
    (hs : Starts s) (hrun : IsRun (Step dispatch) s tr)
    (hmeets : Meets (fun s ev => InTime s ev ∧ InRange s ev ∧ NoStray dispatch s ev) s tr) :
    Throughout (fun s => OnceEach s ∧ Settled s) s tr ∧ EachStep Answers s tr := by
  have hstep : ∀ s ev s', Inv s → (InTime s ev ∧ InRange s ev ∧ NoStray dispatch s ev) →
      Step dispatch s ev s' → Inv s' := by
    rintro s ev s' h ⟨htime, hrange, hstray⟩ rfl
    exact inv_after h htime hrange hstray
  constructor
  · exact (throughout_of_meets hstep (inv_of_starts hs) hrun hmeets).mono
      fun s h => ⟨h.history.nodup, h.settled⟩
  · exact eachStep_of_meets (fun s ev s' h hG hs' => ⟨hstep s ev s' h hG hs', h.answers ev s'⟩) (inv_of_starts hs)
      hrun hmeets

end Invariant

/-! ### A request for a pid -/

/-- `process::fork`, whose counter is all it uses of the memory. -/
def fork (nextPid : Int32) (_ : Request) : Option (Handled Int32) :=
  some ⟨⟨nextPid, 0, 0, 0, 0⟩, nextPid + 1, []⟩

/-- `callBridge(REQ_FORK)` -/
def reqFork : Request := ⟨10, 0, 0, 0, 0, 0, 0⟩

/-- The ring as `main` leaves it before its loop. -/
def fresh : State Int32 where
  writePos := 0
  readPos := 0
  nextId := 0
  slots _ _ := 0
  kernel := .idle
  bridge := .top
  rest := 2
  calls := 0
  owner _ := 0
  executed := []

theorem starts_fresh : Starts fresh :=
  ⟨rfl, rfl, fun _ _ => rfl, rfl, rfl, rfl⟩

/-- The kernel posts the request, the bridge answers it, and the kernel takes the response. -/
def answeredRun : List Event :=
  .call reqFork :: List.replicate 12 .kernelStep ++ List.replicate 18 .bridgeStep ++ List.replicate 7 .kernelStep

theorem ring_of_meets_answeredRun :
    Throughout (fun s => OnceEach s ∧ Settled s) fresh (trace (after fork) fresh answeredRun) ∧
      EachStep Answers fresh (trace (after fork) fresh answeredRun) := by
  refine ring_of_meets starts_fresh (isRun_trace _ _ _) ?_
  repeat' first
    | exact trivial
    | exact rfl
    | exact Option.some_ne_none 0
    | refine ⟨?_, ?_⟩

/-- The kernel posts the request and gives up before the bridge has looked at it. -/
def lateRun : List Event :=
  .call reqFork :: List.replicate 13 .kernelStep ++ [.timeout, .kernelStep]

/-- The slot is free, and the bridge waits at its position for ever. -/
theorem not_settled_lateRun :
    Starts fresh ∧ IsRun (Step fork) fresh (trace (after fork) fresh lateRun) ∧
      ¬ (Throughout (fun s => OnceEach s ∧ Settled s) fresh (trace (after fork) fresh lateRun) ∧
        EachStep Answers fresh (trace (after fork) fresh lateRun)) := by
  refine ⟨starts_fresh, isRun_trace _ _ _, ?_⟩
  rintro ⟨hall, -⟩
  obtain ⟨-, hpos⟩ := hall.final.2 rfl (.inr (by decide))
  exact absurd hpos (by decide)

end BridgeRing
