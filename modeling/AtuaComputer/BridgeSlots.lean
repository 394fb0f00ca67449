/-
**The slots of the bridge's ring.**

The kernel and the bridge each count the requests in a word of 32 bits, and take the remainder of the word by
the number of slots.  For the bridge the word is a `u32`; the kernel has it as a signed number, whose remainder
has the sign of the number.  From 2³¹ requests on, until the word is zero again, the kernel finds a slot for
every 32nd request only.

Main definitions:

* `BridgeRing.Reaches` — the states of the ring;
* `BridgeRing.SlotAgrees` — a request goes into the slot in which the bridge looks for it.

Main results:

* `BridgeRing.counted_of_reaches` — the words are the numbers of the requests;
* `BridgeRing.slotAgrees_iff` — **for which requests the two agree**.
-/

import AtuaComputer.BridgeRing

set_option relaxedAutoImplicit false
set_option autoImplicit false

namespace BridgeRing

open Runs

variable {β : Type} {dispatch : β → Request → Option (Handled β)} {s₀ s : State β}

/-! ### Counting the requests -/

/-- There is a run to the state. -/
def Reaches (dispatch : β → Request → Option (Handled β)) (s₀ s : State β) : Prop :=
  ∃ evs : List Event, evs.foldl (after dispatch) s₀ = s

/-- The kernel's word is the number of the calls that have taken a position. -/
def KernelCounts (s₀ s : State β) : Prop :=
  ∃ k : ℕ, s.writePos = UInt32.ofNat k ∧
    match s.kernel with
    | .numbered _ _ => s.calls = s₀.calls + (k + 1)
    | _ => s.calls = s₀.calls + k

/-- The bridge's word is the number of the requests that it is done with. -/
def BridgeCounts (s : State β) : Prop :=
  match s.bridge with
  | .top => s.readPos = UInt32.ofNat s.executed.length
  | .loadedRead readPos | .checking readPos | .loading readPos _ _ | .executing readPos _ _ =>
    readPos = s.readPos ∧ s.readPos = UInt32.ofNat s.executed.length
  | .storing readPos _ _ | .advancing readPos =>
    readPos = s.readPos ∧ ∃ k, s.executed.length = k + 1 ∧ s.readPos = UInt32.ofNat k
  | .stopped => True

theorem ofNat_add_one (k : ℕ) : UInt32.ofNat k + 1 = UInt32.ofNat (k + 1) := by
  apply UInt32.toNat_inj.1
  simp

theorem kernelCounts_call (h : KernelCounts s₀ s) (req : Request) : KernelCounts s₀ (call s req) := by
  obtain ⟨k, hpos, hcalls⟩ := h
  unfold call
  cases hpc : s.kernel with
  | idle =>
      rw [hpc] at hcalls
      exact ⟨k, hpos, congrArg (· + 1) hcalls⟩
  | numbered => exact ⟨k, hpos, hcalls⟩
  | spinning => exact ⟨k, hpos, hcalls⟩
  | filling => exact ⟨k, hpos, hcalls⟩
  | armed => exact ⟨k, hpos, hcalls⟩
  | sleeping => exact ⟨k, hpos, hcalls⟩
  | timedOut => exact ⟨k, hpos, hcalls⟩
  | reading => exact ⟨k, hpos, hcalls⟩

/-- A state with the same word, in which the kernel is somewhere else in the call. -/
theorem KernelCounts.of_eq {s' : State β} (h : KernelCounts s₀ s) (hpos : s'.writePos = s.writePos)
    (hcalls : s'.calls = s.calls) (hpc : ∀ req id, s.kernel ≠ .numbered req id)
    (hpc' : ∀ req id, s'.kernel ≠ .numbered req id) : KernelCounts s₀ s' := by
  obtain ⟨k, hk, hcount⟩ := h
  refine ⟨k, hpos.trans hk, ?_⟩
  split
  · exact absurd (by assumption) (hpc' _ _)
  · split at hcount
    · exact absurd (by assumption) (hpc _ _)
    · rw [hcalls, hcount]

theorem kernelCounts_kernelStep (h : KernelCounts s₀ s) : KernelCounts s₀ (kernelStep s) := by
  unfold kernelStep
  cases hpc : s.kernel with
  | idle => exact h
  | numbered req id =>
      -- the position is taken
      obtain ⟨k, hpos, hcalls⟩ := h
      rw [hpc] at hcalls
      refine ⟨k + 1, ?_, ?_⟩
      · show s.writePos + 1 = _
        rw [hpos, ofNat_add_one]
      · cases slotIndex s.writePos <;> exact hcalls
  | spinning req id slot =>
      dsimp only
      split_ifs
      · exact h.of_eq rfl rfl (by simp [hpc]) (by simp)
      · exact h
  | filling req id slot stored =>
      dsimp only
      split
      · exact h.of_eq rfl rfl (by simp [hpc]) (by simp)
      · exact h.of_eq rfl rfl (by simp [hpc]) (by simp)
  | armed req slot =>
      refine h.of_eq rfl rfl (by simp [hpc]) ?_
      dsimp only
      split_ifs <;> simp
  | sleeping => exact h
  | timedOut => exact h.of_eq rfl rfl (by simp [hpc]) (by simp)
  | reading req slot got =>
      dsimp only
      split
      · exact h.of_eq rfl rfl (by simp [hpc]) (by simp)
      · exact h.of_eq rfl rfl (by simp [hpc]) (by simp)

theorem bridgeCounts_bridgeStep (h : BridgeCounts s) : BridgeCounts (bridgeStep dispatch s) := by
  unfold BridgeCounts at h
  unfold bridgeStep
  cases hpc : s.bridge with
  | top =>
      rw [hpc] at h
      exact ⟨rfl, h⟩
  | loadedRead readPos =>
      rw [hpc] at h
      unfold BridgeCounts
      dsimp only
      split_ifs
      · exact h.2
      · exact h
  | checking readPos =>
      rw [hpc] at h
      unfold BridgeCounts
      dsimp only
      split_ifs
      · exact h
      · exact h.2
  | loading readPos call got =>
      rw [hpc] at h
      dsimp only
      split <;> exact h
  | executing readPos call req =>
      rw [hpc] at h
      dsimp only
      split
      · exact ⟨h.1, s.executed.length, List.length_append, h.2⟩
      · trivial
  | storing readPos res stored =>
      rw [hpc] at h
      dsimp only
      split <;> exact h
  | advancing readPos =>
      rw [hpc] at h
      -- the position follows the number of requests that were executed, modulo 2^32
      obtain ⟨hpos, k, hlen, hk⟩ := h
      show readPos + 1 = UInt32.ofNat s.executed.length
      rw [hpos, hk, hlen, ofNat_add_one]
  | stopped =>
      unfold BridgeCounts
      rw [hpc]
      trivial

/-- A state in which the bridge is where it was. -/
theorem BridgeCounts.of_eq {s' : State β} (h : BridgeCounts s) (hpc : s'.bridge = s.bridge)
    (hpos : s'.readPos = s.readPos) (hex : s'.executed = s.executed) : BridgeCounts s' := by
  unfold BridgeCounts at h ⊢
  rw [hpc, hpos, hex]
  exact h

/-- The kernel leaves the bridge's side alone. -/
theorem kernelStep_frame (s : State β) :
    (kernelStep s).bridge = s.bridge ∧ (kernelStep s).readPos = s.readPos ∧
      (kernelStep s).executed = s.executed := by
  unfold kernelStep
  split
  all_goals try split
  all_goals exact ⟨rfl, rfl, rfl⟩

/-- The bridge leaves the kernel's side alone. -/
theorem bridgeStep_frame (s : State β) :
    (bridgeStep dispatch s).kernel = s.kernel ∧ (bridgeStep dispatch s).writePos = s.writePos ∧
      (bridgeStep dispatch s).calls = s.calls := by
  unfold bridgeStep
  split
  all_goals try split
  all_goals exact ⟨rfl, rfl, rfl⟩

/-- What an event keeps. -/
theorem counts_after (h : KernelCounts s₀ s ∧ BridgeCounts s) (ev : Event) :
    KernelCounts s₀ (after dispatch s ev) ∧ BridgeCounts (after dispatch s ev) := by
  obtain ⟨hkernel, hbridge⟩ := h
  cases ev with
  | call req =>
      refine ⟨kernelCounts_call hkernel req, ?_⟩
      show BridgeCounts (call s req)
      unfold call
      cases s.kernel <;> exact hbridge
  | kernelStep =>
      obtain ⟨hpc, hpos, hex⟩ := kernelStep_frame s
      exact ⟨kernelCounts_kernelStep hkernel, hbridge.of_eq hpc hpos hex⟩
  | bridgeStep =>
      refine ⟨?_, bridgeCounts_bridgeStep hbridge⟩
      obtain ⟨hpc, hpos, hcalls⟩ := @bridgeStep_frame β dispatch s
      show KernelCounts s₀ (bridgeStep dispatch s)
      unfold KernelCounts
      rw [hpc, hpos, hcalls]
      exact hkernel
  | timeout =>
      show KernelCounts s₀ (timeout s) ∧ BridgeCounts (timeout s)
      unfold timeout
      split
      · rename_i hpc
        exact ⟨hkernel.of_eq rfl rfl (by simp [hpc]) (by simp), hbridge⟩
      · exact ⟨hkernel, hbridge⟩

/-- **The words are the numbers of the requests.** -/
theorem counted_of_reaches (hstart : Starts s₀) (h : Reaches dispatch s₀ s) :
    KernelCounts s₀ s ∧ BridgeCounts s := by
  obtain ⟨evs, rfl⟩ := h
  have hbegin : KernelCounts s₀ s₀ ∧ BridgeCounts s₀ := by
    refine ⟨⟨0, hstart.writePos, ?_⟩, ?_⟩
    · rw [hstart.kernel]
      rfl
    · unfold BridgeCounts
      rw [hstart.bridge, hstart.executed]
      exact hstart.readPos
  have hall : Throughout (fun s => KernelCounts s₀ s ∧ BridgeCounts s) s₀ (trace (after dispatch) s₀ evs) := by
    refine throughout_of_isRun ?_ hbegin (isRun_trace _ _ _)
    rintro s l s' hs rfl
    exact counts_after hs l
  rw [← final_trace]
  exact hall.final

/-! ### The slots -/

theorem readSlot_ofNat (k : ℕ) : readSlot (UInt32.ofNat k) = k % ringSlots := by
  unfold readSlot
  rw [UInt32.toNat_ofNat']
  exact Nat.mod_mod_of_dvd k (by decide)

/-- **The remainder of a signed number**: it is that of the word where the number is not negative, or where
there is none. -/
theorem slotIndex_ofNat (k : ℕ) :
    slotIndex (UInt32.ofNat k) = if k % 2 ^ 32 < 2 ^ 31 ∨ 32 ∣ k then some (k % ringSlots) else none := by
  have hnat : (UInt32.ofNat k).toNat = k % 2 ^ 32 := UInt32.toNat_ofNat'
  have hint : (UInt32.ofNat k).toInt32.toInt =
      if 2 * (UInt32.ofNat k).toNat < 2 ^ 32 then ((UInt32.ofNat k).toNat : Int)
      else ((UInt32.ofNat k).toNat : Int) - (2 ^ 32 : Nat) :=
    BitVec.toInt_eq_toNat_cond _
  rw [hnat] at hint
  have hmod : (UInt32.ofNat k).toInt32.toInt.tmod 32 = _ := Int.tmod_eq_emod
  have hslot : slotIndex (UInt32.ofNat k) = if 0 ≤ (UInt32.ofNat k).toInt32.toInt.tmod 32 then
      some ((UInt32.ofNat k).toInt32.toInt.tmod 32).toNat else none := rfl
  rw [hslot]
  unfold ringSlots
  by_cases hslot : k % 2 ^ 32 < 2 ^ 31 ∨ 32 ∣ k
  · have hrem : (UInt32.ofNat k).toInt32.toInt.tmod 32 = (k % 32 : ℕ) := by
      rw [hmod]
      split_ifs at hint ⊢ <;> omega
    rw [if_pos hslot, hrem, if_pos (Int.natCast_nonneg _), Int.toNat_natCast]
  · have hrem : (UInt32.ofNat k).toInt32.toInt.tmod 32 < 0 := by
      rw [hmod]
      split_ifs at hint ⊢ <;> omega
    rw [if_neg hslot, if_neg (by omega)]

/-- The request of the `k`-th call, counted from zero, goes into a slot of the ring, and that is where the bridge
looks for its `k`-th request. -/
def SlotAgrees (dispatch : β → Request → Option (Handled β)) (s₀ s : State β) (k : ℕ) : Prop :=
  ∃ slot < ringSlots, (∃ req id, (kernelStep s).kernel = .spinning req id slot) ∧
    ∀ s', Reaches dispatch s₀ s' → ∀ readPos call got, s'.bridge = .loading readPos call got →
      s'.executed.length = k → readSlot readPos = slot

/-- A request that has its position takes the slot of it. -/
theorem kernelStep_numbered {req : Request} {id : Int32} (hpc : s.kernel = .numbered req id) :
    (kernelStep s).kernel =
      match slotIndex s.writePos with
      | some slot => .spinning req id slot
      | none => .idle := by
  cases hslot : slotIndex s.writePos with
  | none => simp [kernelStep, hpc, hslot]
  | some slot => simp [kernelStep, hpc, hslot]

/-- **For which requests the two agree.** -/
theorem slotAgrees_iff (hstart : Starts s₀) (hs : Reaches dispatch s₀ s) {req : Request} {id : Int32} {k : ℕ}
    (hpc : s.kernel = .numbered req id) (hcalls : s.calls = s₀.calls + (k + 1)) :
    SlotAgrees dispatch s₀ s k ↔ k % 2 ^ 32 < 2 ^ 31 ∨ 32 ∣ k := by
  obtain ⟨⟨k', hpos, hcount⟩, -⟩ := counted_of_reaches hstart hs
  rw [hpc] at hcount
  obtain rfl : k' = k := by
    dsimp only at hcount
    omega
  have hstep := kernelStep_numbered hpc
  rw [hpos, slotIndex_ofNat] at hstep
  constructor
  · rintro ⟨slot, -, ⟨req', id', hspin⟩, -⟩
    by_contra hnot
    rw [if_neg hnot, hspin] at hstep
    cases hstep
  · intro hslot
    rw [if_pos hslot] at hstep
    refine ⟨k' % ringSlots, Nat.mod_lt _ (by decide), ⟨req, id, hstep⟩, fun s' hs' readPos call got hload hlen => ?_⟩
    obtain ⟨-, hbridge⟩ := counted_of_reaches hstart hs'
    unfold BridgeCounts at hbridge
    rw [hload] at hbridge
    obtain ⟨hread, hword⟩ := hbridge
    rw [hread, hword, hlen, readSlot_ofNat]

/-- The first request. -/
theorem slotAgrees_iff_fresh : SlotAgrees fork fresh (call fresh reqFork) 0 :=
  (slotAgrees_iff starts_fresh ⟨[.call reqFork], rfl⟩ rfl rfl).2 (Or.inr (Nat.dvd_zero 32))

/-! ### A bridge that does not answer -/

/-- No call is going on, and no slot is used. -/
structure Unused (s : State β) (k : ℕ) : Prop where
  calls : s.calls = k
  writePos : s.writePos = UInt32.ofNat k
  kernel : s.kernel = .idle
  free : ∀ slot, status s slot = 0

/-- The steps of a call that gives up, or has no slot. -/
def givesUp : List Event := List.replicate 13 .kernelStep ++ [.timeout, .kernelStep]

theorem call_of_idle {s : State β} (h : s.kernel = .idle) (req : Request) : call s req =
    { s with nextId := s.nextId + 1, calls := s.calls + 1, kernel := .numbered req s.nextId.toInt32 } := by
  unfold call
  rw [h]

/-- The kernel has made `n` stores of a request, and no status has changed. -/
structure Filled (s s' : State β) (req : Request) (id : Int32) (slot n : ℕ) : Prop where
  kernel : s'.kernel = .filling req id slot n
  calls : s'.calls = s.calls
  writePos : s'.writePos = s.writePos
  free : ∀ i, status s' i = status s i

/-- None of the stores of a request is the status. -/
theorem requestStores_ne (id : Int32) (req : Request) {n off : ℕ} {v : Int32}
    (h : (requestStores id req)[n]? = some (off, v)) : off ≠ slotStatus := by
  have hmem := List.mem_of_getElem? h
  unfold requestStores at hmem
  simp only [List.mem_cons, List.not_mem_nil, Prod.mk.injEq, or_false] at hmem
  unfold slotStatus
  omega

theorem Filled.kernelStep {s s' : State β} {req : Request} {id : Int32} {slot n : ℕ}
    (h : Filled s s' req id slot n) (hn : n < 9) : Filled s (kernelStep s') req id slot (n + 1) := by
  have hlen : n < (requestStores id req).length := hn
  have hget := List.getElem?_eq_getElem hlen
  obtain ⟨⟨off, v⟩, hstore⟩ : ∃ p, (requestStores id req)[n] = p := ⟨_, rfl⟩
  rw [hstore] at hget
  have hstep : BridgeRing.kernelStep s' =
      { s' with slots := setWord s'.slots slot off v, kernel := .filling req id slot (n + 1) } := by
    unfold BridgeRing.kernelStep
    simp only [h.kernel, hget]
  rw [hstep]
  refine ⟨rfl, h.calls, h.writePos, fun i => ?_⟩
  show setWord s'.slots slot off v i slotStatus = _
  rw [setWord_status _ _ (requestStores_ne id req hget)]
  exact h.free i

theorem Filled.run {s s' : State β} {req : Request} {id : Int32} {slot : ℕ} (h : Filled s s' req id slot 0) {n : ℕ}
    (hn : n ≤ 9) : Filled s ((List.replicate n Event.kernelStep).foldl (after dispatch) s') req id slot n := by
  induction n with
  | zero => exact h
  | succ n ih =>
      rw [List.replicate_succ', List.foldl_append]
      exact (ih (by omega)).kernelStep (by omega)

/-- The kernel fills its slot. -/
theorem filled {s : State β} {k slot : ℕ} (h : Unused s k) (hslot : slotIndex s.writePos = some slot) (req : Request) :
    ∃ s' : State β, (List.replicate 11 Event.kernelStep).foldl (after dispatch) (call s req) = s' ∧
      s'.kernel = .filling req s.nextId.toInt32 slot 9 ∧ s'.calls = s.calls + 1 ∧ s'.writePos = s.writePos + 1 ∧
      ∀ i, status s' i = 0 := by
  have hspin : kernelStep (call s req) = { s with
      nextId := s.nextId + 1
      calls := s.calls + 1
      writePos := s.writePos + 1
      kernel := .spinning req s.nextId.toInt32 slot } := by
    rw [call_of_idle h.kernel]
    unfold kernelStep
    dsimp only
    rw [hslot]
  have hbegin : Filled (kernelStep (call s req)) (kernelStep (kernelStep (call s req))) req s.nextId.toInt32 slot
      0 := by
    rw [hspin]
    have hzero : s.slots slot slotStatus = 0 := h.free slot
    unfold kernelStep status
    dsimp only
    rw [if_pos hzero]
    exact ⟨rfl, rfl, rfl, fun _ => rfl⟩
  have hend : Filled _ ((List.replicate 9 Event.kernelStep).foldl (after dispatch) _) _ _ _ 9 :=
    hbegin.run (Nat.le_refl 9)
  refine ⟨_, rfl, hend.kernel, hend.calls.trans ?_, hend.writePos.trans ?_, fun i => (hend.free i).trans ?_⟩
  · rw [hspin]
  · rw [hspin]
  · rw [hspin]
    exact h.free i

/-- After a call that nobody answers the next one finds the slots free. -/
theorem unused_givesUp {s : State β} {k : ℕ} (h : Unused s k) (req : Request) :
    Unused (givesUp.foldl (after dispatch) (call s req)) (k + 1) := by
  have hpos : s.writePos + 1 = UInt32.ofNat (k + 1) := by rw [h.writePos, ofNat_add_one]
  have hcalls : s.calls + 1 = k + 1 := congrArg (· + 1) h.calls
  cases hslot : slotIndex s.writePos with
  | none =>
      have hrun : givesUp.foldl (after dispatch) (call s req) =
          { s with nextId := s.nextId + 1, calls := s.calls + 1, writePos := s.writePos + 1, kernel := .idle } := by
        rw [call_of_idle h.kernel]
        simp [givesUp, List.replicate, after, kernelStep, timeout, hslot]
      rw [hrun]
      exact ⟨hcalls, hpos, rfl, h.free⟩
  | some slot =>
      obtain ⟨s', hrun, hpc, hcalls', hpos', hfree⟩ := @filled β dispatch s k slot h hslot req
      have hsplit : givesUp = List.replicate 11 .kernelStep ++ [.kernelStep, .kernelStep, .timeout, .kernelStep] := rfl
      have harmed : kernelStep s' = { s' with
          slots := setWord s'.slots slot slotStatus 1
          owner := Function.update s'.owner slot s'.calls
          kernel := .armed req slot } := by
        unfold kernelStep
        simp only [hpc]
        rfl
      have hone : setWord s'.slots slot slotStatus 1 slot slotStatus = 1 := by
        rw [setWord_slotStatus, if_pos rfl]
      rw [hsplit, List.foldl_append, hrun]
      simp only [List.foldl, after, harmed]
      simp only [kernelStep, status, hone, if_true, timeout]
      refine ⟨hcalls'.trans hcalls, hpos'.trans hpos, rfl, fun i => ?_⟩
      show setWord (setWord s'.slots slot slotStatus 1) slot slotStatus 0 i slotStatus = 0
      rw [setWord_slotStatus, setWord_slotStatus]
      split_ifs
      · rfl
      · exact hfree i

/-- Every number of calls can be reached. -/
theorem exists_unused {s₀ : State β} (hstart : Starts s₀) (hcalls : s₀.calls = 0) (req : Request) (k : ℕ) :
    ∃ s, Reaches dispatch s₀ s ∧ Unused s k := by
  induction k with
  | zero =>
      refine ⟨s₀, ⟨[], rfl⟩, hcalls, hstart.writePos, hstart.kernel, fun slot => hstart.slots slot slotStatus⟩
  | succ k ih =>
      obtain ⟨s, ⟨evs, hs⟩, hunused⟩ := ih
      refine ⟨givesUp.foldl (after dispatch) (call s req), ⟨evs ++ .call req :: givesUp, ?_⟩,
        unused_givesUp hunused req⟩
      rw [List.foldl_append, hs]
      rfl

/-- **After 2³¹ + 1 requests the two do not agree.** -/
theorem not_slotAgrees : ¬ ∀ (s : State Int32) (req : Request) (id : Int32) (k : ℕ), Reaches fork fresh s →
    s.kernel = .numbered req id → s.calls = fresh.calls + (k + 1) → SlotAgrees fork fresh s k := by
  intro h
  obtain ⟨k, hk⟩ : ∃ k : ℕ, k = 2 ^ 31 + 1 := ⟨_, rfl⟩
  obtain ⟨s, ⟨evs, hs⟩, hunused⟩ := @exists_unused Int32 fork fresh starts_fresh rfl reqFork k
  have hcall := call_of_idle hunused.kernel reqFork
  have hreach : Reaches fork fresh (call s reqFork) := by
    refine ⟨evs ++ [.call reqFork], ?_⟩
    rw [List.foldl_append, hs]
    rfl
  have hcalls : (call s reqFork).calls = fresh.calls + (k + 1) := by
    have hzero : fresh.calls = 0 := rfl
    rw [hcall, hzero, Nat.zero_add]
    exact congrArg (· + 1) hunused.calls
  obtain ⟨slot, -, ⟨req, id, hspin⟩, -⟩ := h _ reqFork s.nextId.toInt32 k hreach (by rw [hcall]) hcalls
  have hnone : slotIndex s.writePos = none := by
    rw [hunused.writePos, slotIndex_ofNat, if_neg (by omega)]
  rw [hcall] at hspin
  simp [kernelStep, hnone] at hspin

end BridgeRing
