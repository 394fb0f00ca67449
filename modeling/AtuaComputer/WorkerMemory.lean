/-
**The heap and the mappings of a worker.**

`brk` and `mmap` do not go to the kernel: the worker serves both from the memory of its instance.  A mapping
lies at the end of the memory, which is grown for it, and the break is a number on the worker that `brk`
sets to any value the memory reaches.  Neither of the two looks at what the other has done, so a heap that
grows past the place where the first mapping was made lies over that mapping.

Main definitions:

* `WorkerMemory.brk`, `WorkerMemory.mmap` — the two calls;
* `WorkerMemory.Apart` — the mappings and the heap are disjoint and lie in the memory;
* `WorkerMemory.Fits` — the condition.

Main results:

* `WorkerMemory.inv_brk`, `WorkerMemory.inv_mmap` — what a call that meets the condition keeps;
* `WorkerMemory.apart_of_meets` — so the mappings and the heap stay apart in a run.
-/

import AtuaComputer.Runs
import Mathlib.Data.Set.Disjoint
import Mathlib.Order.CompletePartialOrder
import Mathlib.Order.Interval.Set.Disjoint

set_option relaxedAutoImplicit false
set_option autoImplicit false

namespace WorkerMemory

open Runs

/-! ### The memory of the instance -/

/-- The size of a page of the memory. -/
def pageSize : ℕ := 65536

/-- `maximum`, the number of pages to which the memory may grow -/
def maximum : ℕ := 16384

/-- `initial`, the number of pages with which the memory is made -/
def initialPages : ℕ := 4096

/-- `Math.ceil(len / 65536)` -/
def pagesFor (len : ℕ) : ℕ := (len + (pageSize - 1)) / pageSize

/-- A shared memory, `WebAssembly.Memory`. -/
structure LinearMemory where
  pages : ℕ
  bytes : ℕ → UInt8

namespace LinearMemory

/-- `memory.buffer.byteLength` -/
def byteLength (m : LinearMemory) : ℕ := m.pages * pageSize

/-- `grow`, which throws past the maximum and may be refused by the host at any time.  The new pages are
zero. -/
def grow (m : LinearMemory) (delta : ℕ) (granted : Bool) : Option LinearMemory :=
  if granted ∧ m.pages + delta ≤ maximum then
    some { pages := m.pages + delta, bytes := fun i => if i < m.byteLength then m.bytes i else 0 }
  else none

/-- `new Uint8Array(memory.buffer, ptr, len).fill(0)` -/
def clear (m : LinearMemory) (ptr len : ℕ) : LinearMemory :=
  { m with bytes := fun i => if ptr ≤ i ∧ i < ptr + len then 0 else m.bytes i }

@[simp] theorem byteLength_clear (m : LinearMemory) (ptr len : ℕ) :
    (m.clear ptr len).byteLength = m.byteLength := rfl

/-- What a granted growth leads to. -/
theorem grow_eq_some {m m' : LinearMemory} {delta : ℕ} {granted : Bool}
    (h : m.grow delta granted = some m') : m'.byteLength = m.byteLength + delta * pageSize := by
  unfold grow at h
  split at h
  · cases h
    exact Nat.add_mul _ _ _
  · cases h

theorem grow_eq_none_iff {m : LinearMemory} {delta : ℕ} {granted : Bool} :
    m.grow delta granted = none ↔ granted = false ∨ maximum < m.pages + delta := by
  unfold grow
  split
  · next h => simp [h.1, Nat.not_lt.2 h.2]
  · next h =>
      simp only [true_iff]
      by_cases hg : granted = true
      · exact .inr (Nat.lt_of_not_le fun hle => h ⟨hg, hle⟩)
      · exact .inl (by simpa using hg)

end LinearMemory

theorem pageSize_pos : 0 < pageSize := by decide

/-- The pages for a length hold it. -/
theorem le_pagesFor_mul (len : ℕ) : len ≤ pagesFor len * pageSize := by
  unfold pagesFor
  have hdiv := Nat.div_add_mod (len + (pageSize - 1)) pageSize
  have hmod := Nat.mod_lt (len + (pageSize - 1)) pageSize_pos
  rw [Nat.mul_comm]
  omega

/-! ### The calls -/

/-- What the two calls look at: the memory, `self._brk` (0 while it is undefined), and the lengths that
were posted to the kernel with `memory-ready`. -/
structure Worker where
  memory : LinearMemory
  brk : ℕ
  memoryReady : List ℕ

/-- `sharedMemory.grow`, and the message that tells the kernel. -/
def grow (w : Worker) (delta : ℕ) (granted : Bool) : Option Worker :=
  (w.memory.grow delta granted).map fun memory =>
    { w with memory, memoryReady := w.memoryReady ++ [memory.byteLength] }

/-- `if (!self._brk) self._brk = memory.buffer.byteLength` -/
def startBrk (w : Worker) : Worker :=
  if w.brk = 0 then { w with brk := w.memory.byteLength } else w

/-- `host_syscall` 12, with what it returns. -/
def brk (w : Worker) (a : UInt32) (granted : Bool) : ℕ × Worker :=
  let w := startBrk w
  if a = 0 then (w.brk, w)
  else
    let target := a.toNat
    let neededPages := pagesFor target
    if w.memory.pages < neededPages then
      match grow w (neededPages - w.memory.pages) granted with
      | some w => (target, { w with brk := target })
      | none => (w.brk, w)
    else (target, { w with brk := target })

/-- `host_syscall` 9, with what it returns. -/
def mmap (w : Worker) (b : UInt32) (granted : Bool) : ℤ × Worker :=
  let len := b.toNat
  let oldPages := w.memory.pages
  match grow w (pagesFor len) granted with
  | none => (-12, w)
  | some w =>
    let ptr := oldPages * pageSize
    (ptr, { w with memory := w.memory.clear ptr len })

/-! ### Runs -/

/-- What a successful `mmap` has returned, and the length that was asked for. -/
structure Mapping where
  start : ℕ
  len : ℕ
deriving DecidableEq

/-- The addresses of a mapping. -/
def Mapping.addrs (r : Mapping) : Set ℕ := Set.Ico r.start (r.start + r.len)

/-- A worker, the first value its break had, and its mappings, the last one first. -/
structure State where
  worker : Worker
  initialBrk : ℕ
  mappings : List Mapping

/-- The addresses from the initial break to the current one. -/
def heap (s : State) : Set ℕ := Set.Ico s.initialBrk s.worker.brk

/-- A call, and whether the host grants the growth it may ask for. -/
inductive Call where
  | brk (a : UInt32) (granted : Bool)
  | mmap (b : UInt32) (granted : Bool)

/-- Where the heap starts, or would start now. -/
def heapStart (s : State) : ℕ := if s.worker.brk = 0 then s.worker.memory.byteLength else s.initialBrk

/-- The state after a call. -/
def after (s : State) : Call → State
  | .brk a granted =>
    { s with worker := (brk s.worker a granted).2, initialBrk := heapStart s }
  | .mmap b granted =>
    let (ptr, worker) := mmap s.worker b granted
    { s with
      worker
      mappings := if 0 ≤ ptr then ⟨ptr.toNat, b.toNat⟩ :: s.mappings else s.mappings }

/-- The step relation. -/
def Step (s : State) (call : Call) (s' : State) : Prop := s' = after s call

/-- A worker that has not mapped anything for its program.  Its break is undefined, or left over. -/
structure Starts (s : State) : Prop where
  initialBrk : s.initialBrk = s.worker.brk
  mappings : s.mappings = []

/-- A new worker. -/
def fresh : State where
  worker := { memory := { pages := initialPages, bytes := fun _ => 0 }, brk := 0, memoryReady := [] }
  initialBrk := 0
  mappings := []

/-- The mappings are disjoint from each other and from the heap, and lie in the memory. -/
structure Apart (s : State) : Prop where
  mappings : s.mappings.Pairwise fun r r' => Disjoint r.addrs r'.addrs
  heap : ∀ r ∈ s.mappings, Disjoint r.addrs (heap s)
  inside : ∀ r ∈ s.mappings, r.addrs ⊆ Set.Iio s.worker.memory.byteLength

/-- The memory does not reach the target, and does not grow to it. -/
def Refused (w : Worker) (target : ℕ) (granted : Bool) : Prop :=
  w.memory.pages < pagesFor target ∧ (granted = false ∨ maximum < pagesFor target)

/-- A break that is set does not pass the start of a mapping above the start of the heap; and nothing is
mapped while the break lies past the end of the memory. -/
def Fits (s : State) : Call → Prop
  | .brk a granted =>
    a ≠ 0 → ¬ Refused s.worker a.toNat granted →
      ∀ r ∈ s.mappings, 0 < r.len → heapStart s < r.start + r.len → a.toNat ≤ r.start
  | .mmap _ _ => s.worker.brk ≤ s.worker.memory.byteLength

instance (w : Worker) (target : ℕ) (granted : Bool) : Decidable (Refused w target granted) :=
  inferInstanceAs (Decidable (_ ∧ _))

instance (s : State) : (call : Call) → Decidable (Fits s call)
  | .brk _ _ => inferInstanceAs (Decidable (_ → _ → _))
  | .mmap _ _ => inferInstanceAs (Decidable (_ ≤ _))

/-! ### The invariant -/

/-- Where the mappings lie: one above the other, in the memory, and each below the start of the heap or
above the break. -/
structure Inv (s : State) : Prop where
  ordered : s.mappings.Pairwise fun r r' => r'.start + r'.len ≤ r.start
  inside : ∀ r ∈ s.mappings, r.start + r.len ≤ s.worker.memory.byteLength
  heap : ∀ r ∈ s.mappings, 0 < r.len → heapStart s < r.start + r.len → s.worker.brk ≤ r.start

theorem Inv.apart {s : State} (h : Inv s) : Apart s := by
  refine ⟨h.ordered.imp fun {r r'} hle => ?_, fun r hr => ?_, fun r hr x hx => ?_⟩
  · rw [Mapping.addrs, Mapping.addrs, Set.Ico_disjoint_Ico]
    omega
  · rw [Mapping.addrs, WorkerMemory.heap, Set.Ico_disjoint_Ico]
    have hheap := h.heap r hr
    unfold heapStart at hheap
    split at hheap <;> omega
  · exact Set.mem_Iio.2 (Nat.lt_of_lt_of_le hx.2 (h.inside r hr))

theorem inv_of_starts {s : State} (h : Starts s) : Inv s := by
  constructor <;> simp [h.mappings]

/-! ### One call -/

@[simp] theorem memory_startBrk (w : Worker) : (startBrk w).memory = w.memory := by
  unfold startBrk
  split <;> rfl

theorem grow_eq_some {w w' : Worker} {delta : ℕ} {granted : Bool} (h : grow w delta granted = some w') :
    w'.brk = w.brk ∧ w'.memory.byteLength = w.memory.byteLength + delta * pageSize := by
  unfold grow at h
  obtain ⟨m, hm, rfl⟩ := Option.map_eq_some_iff.1 h
  exact ⟨rfl, LinearMemory.grow_eq_some hm⟩

/-- **What `brk` does**: it only starts the break, or it sets it to the target. -/
theorem brk_cases (w : Worker) (a : UInt32) (granted : Bool) :
    (brk w a granted).2 = startBrk w ∨
      a ≠ 0 ∧ ¬ Refused w a.toNat granted ∧ (brk w a granted).2.brk = a.toNat ∧
        w.memory.byteLength ≤ (brk w a granted).2.memory.byteLength := by
  by_cases ha : a = 0
  · exact .inl (by simp [brk, ha])
  by_cases hpages : w.memory.pages < pagesFor a.toNat
  · cases hgrow : grow (startBrk w) (pagesFor a.toNat - w.memory.pages) granted with
    | none => exact .inl (by simp [brk, ha, hpages, hgrow])
    | some w' =>
        have hgrown := (grow_eq_some hgrow).2
        have hrefused : ¬ Refused w a.toNat granted := by
          rintro ⟨-, hno⟩
          have hnone : w.memory.grow (pagesFor a.toNat - w.memory.pages) granted = none :=
            LinearMemory.grow_eq_none_iff.2 (hno.imp_right fun h => by omega)
          rw [grow, memory_startBrk, hnone] at hgrow
          cases hgrow
        refine .inr ⟨ha, hrefused, by simp [brk, ha, hpages, hgrow], ?_⟩
        simp only [brk, ha, hpages, hgrow, memory_startBrk, if_true, if_false]
        rw [memory_startBrk] at hgrown
        omega
  · refine .inr ⟨ha, fun h => hpages h.1, ?_, ?_⟩ <;> simp [brk, ha, hpages]

/-- **What `mmap` does**: it fails, or it puts a mapping at the end of the memory. -/
theorem mmap_cases (w : Worker) (b : UInt32) (granted : Bool) :
    mmap w b granted = (-12, w) ∨
      ∃ w' : Worker, mmap w b granted = ((w.memory.byteLength : ℤ), w') ∧ w'.brk = w.brk ∧
        w.memory.byteLength + b.toNat ≤ w'.memory.byteLength := by
  cases hgrow : grow w (pagesFor b.toNat) granted with
  | none => exact .inl (by simp [mmap, hgrow])
  | some w' =>
      obtain ⟨hbrk, hlen⟩ := grow_eq_some hgrow
      have hfor := le_pagesFor_mul b.toNat
      refine .inr ⟨{ w' with memory := w'.memory.clear w.memory.byteLength b.toNat }, ?_, hbrk, ?_⟩
      · simp only [mmap, hgrow]
        rfl
      · rw [LinearMemory.byteLength_clear]
        omega

/-- A break that has started lies where the heap starts. -/
theorem brk_startBrk (w : Worker) :
    (startBrk w).brk = if w.brk = 0 then w.memory.byteLength else w.brk := by
  unfold startBrk
  split <;> rfl

theorem inv_brk {s : State} (h : Inv s) {a : UInt32} {granted : Bool} (hfits : Fits s (.brk a granted)) :
    Inv (after s (.brk a granted)) := by
  have hstart : heapStart (after s (.brk a granted)) = heapStart s ∨
      heapStart (after s (.brk a granted)) = (after s (.brk a granted)).worker.memory.byteLength := by
    rw [heapStart]
    split
    · exact .inr rfl
    · exact .inl rfl
  rcases brk_cases s.worker a granted with heq | ⟨ha, hnot, hbrk, hlen⟩
  · have hmem : (after s (.brk a granted)).worker.memory = s.worker.memory := by
      rw [after, heq, memory_startBrk]
    refine ⟨h.ordered, fun r hr => hmem ▸ h.inside r hr, fun r hr hpos hlt => ?_⟩
    have hinside := h.inside r hr
    rw [hmem] at hstart
    have hbrk : (after s (.brk a granted)).worker.brk = (startBrk s.worker).brk := congrArg _ heq
    have hold := h.heap r hr hpos
    rw [hbrk, brk_startBrk]
    split
    · have : heapStart s = s.worker.memory.byteLength := if_pos ‹_›
      omega
    · omega
  · refine ⟨h.ordered, fun r hr => Nat.le_trans (h.inside r hr) hlen, fun r hr hpos hlt => ?_⟩
    have hinside := Nat.le_trans (h.inside r hr) hlen
    have hfits' := hfits ha hnot r hr hpos
    show (brk s.worker a granted).2.brk ≤ r.start
    change _ = _ ∨ _ = (brk s.worker a granted).2.memory.byteLength at hstart
    omega

theorem inv_mmap {s : State} (h : Inv s) {b : UInt32} {granted : Bool}
    (hfits : Fits s (.mmap b granted)) : Inv (after s (.mmap b granted)) := by
  rcases mmap_cases s.worker b granted with heq | ⟨w', heq, hbrk, hlen⟩
  · have hafter : after s (.mmap b granted) = s := by simp [after, heq]
    rwa [hafter]
  · have hafter : after s (.mmap b granted) =
        { s with worker := w', mappings := ⟨s.worker.memory.byteLength, b.toNat⟩ :: s.mappings } := by
      simp [after, heq]
    rw [hafter]
    have hgrown : s.worker.memory.byteLength ≤ w'.memory.byteLength := by omega
    refine ⟨List.pairwise_cons.2 ⟨h.inside, h.ordered⟩, fun r hr => ?_, fun r hr hpos hlt => ?_⟩
    · rcases List.mem_cons.1 hr with rfl | hr
      · exact hlen
      · exact Nat.le_trans (h.inside r hr) hgrown
    · show w'.brk ≤ r.start
      rcases List.mem_cons.1 hr with rfl | hr
      · exact hbrk ▸ hfits
      · rw [hbrk]
        by_cases hunset : s.worker.brk = 0
        · omega
        · have hnew : heapStart ⟨w', s.initialBrk, ⟨s.worker.memory.byteLength, b.toNat⟩ :: s.mappings⟩ =
              s.initialBrk := if_neg (by rwa [hbrk])
          have hold : heapStart s = s.initialBrk := if_neg hunset
          exact h.heap r hr hpos (by omega)

/-- **As long as no break passes a mapping, the mappings and the heap stay apart.** -/
theorem apart_of_meets {s : State} (hstart : Starts s) {tr : List (Call × State)}
    (hrun : IsRun Step s tr) (hmeets : Meets Fits s tr) : Throughout Apart s tr := by
  have hstep : ∀ s call s', Inv s → Fits s call → Step s call s' → Inv s' := by
    rintro s call _ h hfits rfl
    cases call with
    | brk a granted => exact inv_brk h hfits
    | mmap b granted => exact inv_mmap h hfits
  exact (throughout_of_meets hstep (inv_of_starts hstart) hrun hmeets).mono fun _ => Inv.apart

/-- Above a mapping the heap is started and grows by a page; another page is mapped above it, and the break is
moved inside the heap. -/
theorem apart_of_meets_heapBetweenMappings :
    Throughout Apart fresh
      (trace after fresh
        [.mmap 65536 true, .brk 0 true, .brk 268566528 true, .mmap 65536 true, .brk 268560000 true]) := by
  refine apart_of_meets ⟨rfl, rfl⟩ (isRun_trace _ _ _) ⟨?_, ?_, ?_, ?_, ?_, trivial⟩
  · show Fits _ _
    decide
  · exact fun h => absurd rfl h
  · show Fits _ _
    decide
  · show Fits _ _
    decide
  · show Fits _ _
    decide

/-- The heap is started, a page is mapped, and the heap grows over it. -/
theorem not_apart_heapOverMapping :
    ¬ Throughout Apart fresh (trace after fresh [.brk 0 true, .mmap 65536 true, .brk 268435457 true]) := by
  intro h
  have hdisjoint := h.2.2.2.heap ⟨268435456, 65536⟩ (List.mem_singleton.2 rfl)
  refine Set.disjoint_left.1 hdisjoint (Set.mem_Ico.2 ⟨Nat.le_refl 268435456, by decide⟩) ?_
  exact Set.mem_Ico.2 (by decide)

end WorkerMemory
