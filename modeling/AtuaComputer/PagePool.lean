/-
**The page pool.**

Blink's guest has its physical memory in one block of the engine's memory.  Pages are handed out from the front
of the block.  When it is used up a block of twice the size is allocated, the pages are copied, and the pointers
to them in the table of host pages and in the list of free pages are moved; then the old block is freed.  All
sizes are numbers of 32 bits.

`aligned_alloc` answers with a block or with nothing, and then the process ends.  Its answers are arguments here.

Main definitions:

* `PagePool.growPagePool`, `PagePool.allocPoolPage`, `PagePool.allocPoolPages` — the functions of the pool;
* `PagePool.Relocated` — what a larger pool is to be;
* `PagePool.World`, `PagePool.Step` — a process and the calls that it makes;
* `PagePool.Granted` — the ranges that were handed out lie in the pool, apart from each other;
* `PagePool.Doubles` — doubling reaches the pages that are needed before the size wraps.

Main results:

* `PagePool.relocated_growPagePool` — **growing moves the pool**;
* `PagePool.granted_of_meets` — **the ranges of a run whose calls meet the condition**.
-/

import AtuaComputer.Runs
import Mathlib.Algebra.Order.Ring.Int
import Mathlib.Data.List.Forall2
import Mathlib.Tactic.SplitIfs
import Mathlib.Tactic.ByContra

set_option relaxedAutoImplicit false
set_option autoImplicit false

namespace PagePool

open Runs

/-! ### State -/

/-- `struct PagePool` -/
structure Pool where
  base : UInt32
  capacity : UInt32
  nextPage : UInt32

/-- The pool, the pointers in `g_hostpages` and in the free list, and the engine's memory. -/
structure State where
  pool : Pool
  hostPages : List UInt32
  freePages : List UInt32
  mem : UInt32 → UInt8

/-- An address in a block. -/
def InBlock (base size p : UInt32) : Prop := base.toNat ≤ p.toNat ∧ p.toNat < base.toNat + size.toNat

instance (base size p : UInt32) : Decidable (InBlock base size p) :=
  inferInstanceAs (Decidable (_ ∧ _))

/-! ### The functions of the pool -/

/-- `memset(base, 0, n)` -/
def memset (mem : UInt32 → UInt8) (base n : UInt32) : UInt32 → UInt8 :=
  fun p => if InBlock base n p then 0 else mem p

/-- `memcpy(dst, src, n)` -/
def memcpy (mem : UInt32 → UInt8) (dst src n : UInt32) : UInt32 → UInt8 :=
  fun p => if InBlock dst n p then mem (src + (p - dst)) else mem p

/-- The pointer that takes the place of `p`, with a difference of type `ptrdiff_t`. -/
def rebase (oldBase oldCap newBase p : UInt32) : UInt32 :=
  let off := (p - oldBase).toInt32
  if 0 ≤ off ∧ off.toUInt32 < oldCap then newBase + off.toUInt32 else p

/-- `GrowPagePool`, with the answer of `aligned_alloc`.  Without a block the process ends. -/
def growPagePool (newNumPages : UInt32) (newBase : Option UInt32) (s : State) : Option State :=
  newBase.map fun newBase =>
    let newCap := newNumPages * 4096
    { pool := { s.pool with base := newBase, capacity := newCap }
      hostPages := s.hostPages.map (rebase s.pool.base s.pool.capacity newBase)
      freePages := s.freePages.map (rebase s.pool.base s.pool.capacity newBase)
      mem := memcpy (memset s.mem newBase newCap) newBase s.pool.base (s.pool.nextPage * 4096) }

/-- Where the pool hands out `count` pages. -/
def take (count : UInt32) (s : State) : UInt32 × State :=
  (s.pool.base + s.pool.nextPage * 4096, { s with pool := { s.pool with nextPage := s.pool.nextPage + count } })

/-- How a call ends, as far as it has come: with a pointer, with the end of the process, or not yet. -/
inductive Outcome where
  | returns (page : UInt32) (s : State)
  | exits
  | running

/-- `AllocPoolPage` -/
def allocPoolPage (newBase : Option UInt32) (s : State) : Outcome :=
  if s.pool.capacity ≤ s.pool.nextPage * 4096 then
    match growPagePool (s.pool.capacity / 4096 * 2) newBase s with
    | none => .exits
    | some s => .returns (take 1 s).1 (take 1 s).2
  else .returns (take 1 s).1 (take 1 s).2

/-- `AllocPoolPages`, after a number of rounds of its loop; `aligned_alloc` has an answer for each. -/
def allocPoolPages (count : UInt32) : ℕ → (ℕ → Option UInt32) → State → Outcome
  | 0, _, _ => .running
  | rounds + 1, newBases, s =>
    if s.pool.capacity < (s.pool.nextPage + count) * 4096 then
      match growPagePool (s.pool.capacity / 4096 * 2) (newBases 0) s with
      | none => .exits
      | some s => allocPoolPages count rounds (fun i => newBases (i + 1)) s
    else .returns (take count s).1 (take count s).2

/-! ### Growing moves the pool -/

/-- The pool is a block of memory, and the pages that were handed out lie in it. -/
structure Sound (p : Pool) : Prop where
  base_pos : 0 < p.base.toNat
  in_memory : p.base.toNat + p.capacity.toNat ≤ 2 ^ 32
  next_le : p.nextPage.toNat * 4096 ≤ p.capacity.toNat

/-- What `aligned_alloc` answers with: a block of memory that is not in use. -/
structure Fresh (p : Pool) (base size : UInt32) : Prop where
  base_pos : 0 < base.toNat
  in_memory : base.toNat + size.toNat ≤ 2 ^ 32
  apart : base.toNat + size.toNat ≤ p.base.toNat ∨ p.base.toNat + p.capacity.toNat ≤ base.toNat

/-- A pointer that was moved if it lay in the pool: to the same offset, with the same bytes as far as they were
handed out. -/
structure Moved (s s' : State) (p p' : UInt32) : Prop where
  inside : InBlock s.pool.base s.pool.capacity p →
    InBlock s'.pool.base s'.pool.capacity p' ∧
      p'.toNat - s'.pool.base.toNat = p.toNat - s.pool.base.toNat ∧
      ∀ i : ℕ, p.toNat - s.pool.base.toNat + i < s.pool.nextPage.toNat * 4096 →
        s'.mem (p' + UInt32.ofNat i) = s.mem (p + UInt32.ofNat i)
  outside : ¬ InBlock s.pool.base s.pool.capacity p → p' = p

/-- What the larger pool is to be: the block that `aligned_alloc` answered with, and what lay in the old pool in it. -/
structure Relocated (newBase newCap : UInt32) (s s' : State) : Prop where
  base : s'.pool.base = newBase
  capacity : s'.pool.capacity = newCap
  hostPages : List.Forall₂ (Moved s s') s.hostPages s'.hostPages
  freePages : List.Forall₂ (Moved s s') s.freePages s'.freePages
  nextPage : s'.pool.nextPage = s.pool.nextPage

/-- The difference of two addresses. -/
theorem toNat_sub (a b : UInt32) : (a - b).toNat = (2 ^ 32 - b.toNat + a.toNat) % 2 ^ 32 := UInt32.toNat_sub a b

theorem rebase_inside {base cap newBase p : UInt32} (h : InBlock base cap p) (hcap : cap.toNat < 2 ^ 31) :
    rebase base cap newBase p = newBase + (p - base) := by
  obtain ⟨hlo, hhi⟩ := h
  have hsub := toNat_sub p base
  have hp := p.toNat_lt
  have hoff : (p - base).toNat = p.toNat - base.toNat := by omega
  have hint : (p - base).toInt32.toInt =
      if 2 * (p - base).toNat < 2 ^ 32 then ((p - base).toNat : Int)
      else ((p - base).toNat : Int) - (2 ^ 32 : Nat) :=
    BitVec.toInt_eq_toNat_cond _
  have hpos : 0 ≤ (p - base).toInt32 := by
    rw [Int32.le_iff_toInt_le, hint, if_pos (by omega)]
    exact Int.natCast_nonneg _
  have hlt : (p - base).toInt32.toUInt32 < cap := UInt32.lt_iff_toNat_lt.2 (by
    show (p - base).toNat < cap.toNat
    omega)
  unfold rebase
  dsimp only
  rw [if_pos ⟨hpos, hlt⟩]
  rfl

theorem rebase_outside {base cap newBase p : UInt32} (h : ¬ InBlock base cap p)
    (hmem : base.toNat + cap.toNat ≤ 2 ^ 32) : rebase base cap newBase p = p := by
  have hsub := toNat_sub p base
  have hp := p.toNat_lt
  unfold rebase
  dsimp only
  rw [if_neg]
  rintro ⟨-, hlt⟩
  have hlt' : (p - base).toNat < cap.toNat := UInt32.lt_iff_toNat_lt.1 hlt
  -- below the block the difference wraps to at least the size of the block
  unfold InBlock at h
  omega

/-- The bytes of some pages, where their number does not wrap. -/
theorem toNat_pages {n : UInt32} (h : n.toNat * 4096 < 2 ^ 32) : (n * 4096).toNat = n.toNat * 4096 := by
  rw [UInt32.toNat_mul]
  show n.toNat * 4096 % 2 ^ 32 = _
  exact Nat.mod_eq_of_lt h

section Grow

variable {s s' : State} {newNumPages newBase : UInt32}

/-- Two blocks of which the second is larger leave less than half of the memory to the first. -/
theorem capacity_lt (hs : Sound s.pool) (hfresh : Fresh s.pool newBase (newNumPages * 4096))
    (hlarger : s.pool.capacity < newNumPages * 4096) : s.pool.capacity.toNat < 2 ^ 31 := by
  have hlt := UInt32.lt_iff_toNat_lt.1 hlarger
  have hin := hs.in_memory
  have hin' := hfresh.in_memory
  have hapart := hfresh.apart
  omega

/-- What lies in the pool is moved with it. -/
theorem moved_rebase (hs : Sound s.pool) (hfresh : Fresh s.pool newBase (newNumPages * 4096))
    (hlarger : s.pool.capacity < newNumPages * 4096) (h : growPagePool newNumPages (some newBase) s = some s')
    (p : UInt32) : Moved s s' p (rebase s.pool.base s.pool.capacity newBase p) := by
  cases h
  have hlt := UInt32.lt_iff_toNat_lt.1 hlarger
  have hcap := capacity_lt hs hfresh hlarger
  have hmem := hs.in_memory
  have hmem' := hfresh.in_memory
  refine ⟨fun hin => ?_, fun hout => rebase_outside hout hmem⟩
  rw [rebase_inside hin hcap]
  obtain ⟨hlo, hhi⟩ := hin
  have hsub := toNat_sub p s.pool.base
  have hp := p.toNat_lt
  have hoff : (p - s.pool.base).toNat = p.toNat - s.pool.base.toNat := by omega
  have hadd := UInt32.toNat_add newBase (p - s.pool.base)
  have hnew : (newBase + (p - s.pool.base)).toNat = newBase.toNat + (p.toNat - s.pool.base.toNat) := by omega
  refine ⟨⟨?_, ?_⟩, ?_, fun i hi => ?_⟩
  · show newBase.toNat ≤ _
    omega
  · show _ < newBase.toNat + (newNumPages * 4096).toNat
    omega
  · show _ - newBase.toNat = _
    omega
  · have hnext := hs.next_le
    have hsize : (s.pool.nextPage * 4096).toNat = s.pool.nextPage.toNat * 4096 := toNat_pages (by omega)
    have hilt : i < 2 ^ 32 := by omega
    have hi' : (UInt32.ofNat i).toNat = i := by
      rw [UInt32.toNat_ofNat']
      exact Nat.mod_eq_of_lt hilt
    have haddr := UInt32.toNat_add (newBase + (p - s.pool.base)) (UInt32.ofNat i)
    have haddr' := UInt32.toNat_add p (UInt32.ofNat i)
    have hcopied : InBlock newBase (s.pool.nextPage * 4096) (newBase + (p - s.pool.base) + UInt32.ofNat i) := by
      constructor <;> omega
    -- a byte of the new block comes from the same offset of the old one
    have hsource : s.pool.base + (newBase + (p - s.pool.base) + UInt32.ofNat i - newBase) = p + UInt32.ofNat i := by
      apply UInt32.toNat_inj.1
      have hback := toNat_sub (newBase + (p - s.pool.base) + UInt32.ofNat i) newBase
      have hfrom := UInt32.toNat_add s.pool.base (newBase + (p - s.pool.base) + UInt32.ofNat i - newBase)
      omega
    -- the zeros are stored into the new block only
    have hold : ¬ InBlock newBase (newNumPages * 4096) (p + UInt32.ofNat i) := by
      have hapart := hfresh.apart
      unfold InBlock
      omega
    show memcpy _ newBase s.pool.base _ _ = _
    rw [memcpy, if_pos hcopied, hsource, memset, if_neg hold]

/-- **Growing moves the pool.** -/
theorem relocated_growPagePool (hs : Sound s.pool) (hfresh : Fresh s.pool newBase (newNumPages * 4096))
    (hlarger : s.pool.capacity < newNumPages * 4096) (h : growPagePool newNumPages (some newBase) s = some s') :
    Relocated newBase (newNumPages * 4096) s s' := by
  have hmoved := moved_rebase hs hfresh hlarger h
  cases h
  refine ⟨rfl, rfl, ?_, ?_, rfl⟩
  · exact List.forall₂_map_right_iff.2 (List.forall₂_same.2 fun p _ => hmoved p)
  · exact List.forall₂_map_right_iff.2 (List.forall₂_same.2 fun p _ => hmoved p)

/-- A pool of one page, which is tracked beside a null entry and a page elsewhere, and is free. -/
def onePage : State := ⟨⟨4096, 4096, 1⟩, [0, 4096, 65536], [4096], fun p => p.toUInt8⟩

theorem relocated_growPagePool_onePage : ∃ s', growPagePool 2 (some 8192) onePage = some s' ∧
    s'.hostPages = [0, 8192, 65536] ∧ Relocated 8192 (2 * 4096) onePage s' :=
  ⟨_, rfl, by decide, relocated_growPagePool ⟨by decide, by decide, by decide⟩
    ⟨by decide, by decide, Or.inr (by decide)⟩ (by decide) rfl⟩

end Grow

/-! ### Runs -/

/-- `InitPagePool` -/
def initPagePool (numPages : UInt32) (base : Option UInt32) (s : State) : Option State :=
  base.map fun base =>
    { s with
      pool := ⟨base, numPages * 4096, 0⟩
      mem := memset s.mem base (numPages * 4096) }

inductive Call where
  | page
  | pages (count : UInt32)

/-- The pages that a call asks for. -/
def Call.count : Call → ℕ
  | .page => 1
  | .pages count => count.toNat

/-- A call, with the answers of `aligned_alloc`. -/
structure Event where
  call : Call
  newBases : ℕ → Option UInt32

/-- How far a call has come after some rounds of its loop. -/
def outcome (e : Event) (rounds : ℕ) (s : State) : Outcome :=
  match e.call with
  | .page => allocPoolPage (e.newBases 0) s
  | .pages count => allocPoolPages count rounds e.newBases s

/-- A process: its pool, with the offset and the length of each range that it was given, or that it has ended,
or that it is in a loop without an end. -/
inductive World where
  | live (s : State) (ranges : List (ℕ × ℕ))
  | ended
  | hangs

/-- The step relation. -/
inductive Step : World → Event → World → Prop where
  | returns {s s' : State} {ranges : List (ℕ × ℕ)} {e : Event} {rounds : ℕ} {page : UInt32}
      (h : outcome e rounds s = .returns page s') :
      Step (.live s ranges) e (.live s' (ranges ++ [((page - s'.pool.base).toNat, e.call.count * 4096)]))
  | exits {s : State} {ranges : List (ℕ × ℕ)} {e : Event} {rounds : ℕ} (h : outcome e rounds s = .exits) :
      Step (.live s ranges) e .ended
  | hangs {s : State} {ranges : List (ℕ × ℕ)} {e : Event} (h : ∀ rounds, outcome e rounds s = .running) :
      Step (.live s ranges) e .hangs

/-- A process with a pool of some pages. -/
def Starts (w : World) : Prop :=
  ∃ (numPages base : UInt32) (before s : State),
    numPages ≠ 0 ∧ initPagePool numPages (some base) before = some s ∧ w = .live s []

/-- Two ranges without a common byte. -/
def Apart (r r' : ℕ × ℕ) : Prop := r.1 + r.2 ≤ r'.1 ∨ r'.1 + r'.2 ≤ r.1

/-- No call is in a loop without an end, and the ranges lie in the pool, apart from each other. -/
def Granted : World → Prop
  | .live s ranges => (∀ r ∈ ranges, r.1 + r.2 ≤ s.pool.capacity.toNat) ∧ ranges.Pairwise Apart
  | .ended => True
  | .hangs => False

/-- Doubling the pool gives as many pages as are needed, and does so before it has 2²⁰ of them. -/
def Doubles (p : Pool) (needed : ℕ) : Prop :=
  ∃ k : ℕ, needed ≤ p.capacity.toNat / 4096 * 2 ^ k ∧ p.capacity.toNat / 4096 * 2 ^ k < 2 ^ 20

/-- The condition on a call. -/
def HasRoom : World → Event → Prop
  | .live s _, e => Doubles s.pool (s.pool.nextPage.toNat + e.call.count)
  | _, _ => True

/-! ### The ranges of a run -/

/-- The pool has whole pages, those that were handed out among them. -/
structure Whole (p : Pool) : Prop where
  dvd : 4096 ∣ p.capacity.toNat
  next_le : p.nextPage.toNat * 4096 ≤ p.capacity.toNat

/-- The next `count` pages are handed out. -/
structure Hands (s : State) (count : ℕ) (page : UInt32) (s' : State) : Prop where
  offset : (page - s'.pool.base).toNat = s.pool.nextPage.toNat * 4096
  nextPage : s'.pool.nextPage.toNat = s.pool.nextPage.toNat + count
  whole : Whole s'.pool

/-- A call hands pages out or ends the process; it is not done only in its first rounds. -/
def Outcome.Good (s : State) (count rounds k : ℕ) : Outcome → Prop
  | .returns page s' => Hands s count page s'
  | .exits => True
  | .running => rounds ≤ k

/-- Handing out pages that the pool has. -/
theorem hands_take {s : State} (count : UInt32) (hwhole : Whole s.pool)
    (hfit : (s.pool.nextPage.toNat + count.toNat) * 4096 ≤ s.pool.capacity.toNat) :
    Hands s count.toNat (take count s).1 (take count s).2 := by
  have hcap := s.pool.capacity.toNat_lt
  have hadd := UInt32.toNat_add s.pool.nextPage count
  have hnext : (s.pool.nextPage + count).toNat = s.pool.nextPage.toNat + count.toNat := by omega
  have hmul : (s.pool.nextPage * 4096).toNat = s.pool.nextPage.toNat * 4096 := toNat_pages (by omega)
  refine ⟨?_, hnext, hwhole.dvd, ?_⟩
  · have hsub : s.pool.base + s.pool.nextPage * 4096 - s.pool.base = s.pool.nextPage * 4096 := by
      rw [UInt32.add_comm, UInt32.add_sub_cancel]
    show (s.pool.base + s.pool.nextPage * 4096 - s.pool.base).toNat = _
    rw [hsub, hmul]
  · show (s.pool.nextPage + count).toNat * 4096 ≤ s.pool.capacity.toNat
    rw [hnext]
    exact hfit

/-- The pool after it has been doubled. -/
theorem capacity_double {cap : UInt32} (h : cap.toNat / 4096 * 2 < 2 ^ 20) :
    (cap / 4096 * 2 * 4096).toNat = cap.toNat / 4096 * 2 * 4096 := by
  rw [UInt32.toNat_mul, UInt32.toNat_mul, UInt32.toNat_div]
  show cap.toNat / 4096 * 2 % 2 ^ 32 * 4096 % 2 ^ 32 = _
  rw [Nat.mod_eq_of_lt (by omega), Nat.mod_eq_of_lt (by omega)]

/-- A pool that was doubled has whole pages. -/
theorem whole_double {s s' : State} {newBase : UInt32} (hwhole : Whole s.pool)
    (hlt : s.pool.capacity.toNat / 4096 * 2 < 2 ^ 20)
    (h : growPagePool (s.pool.capacity / 4096 * 2) (some newBase) s = some s') :
    Whole s'.pool ∧ s'.pool.capacity.toNat = s.pool.capacity.toNat / 4096 * 2 * 4096 ∧
      s'.pool.nextPage = s.pool.nextPage := by
  cases h
  have hcap := capacity_double hlt
  refine ⟨⟨?_, ?_⟩, hcap, rfl⟩
  · show 4096 ∣ (s.pool.capacity / 4096 * 2 * 4096).toNat
    rw [hcap]
    exact Nat.dvd_mul_left 4096 _
  · show s.pool.nextPage.toNat * 4096 ≤ (s.pool.capacity / 4096 * 2 * 4096).toNat
    have hnext := hwhole.next_le
    have hsplit := Nat.div_mul_cancel hwhole.dvd
    rw [hcap]
    omega

/-- What is handed out depends on the number of the next page only. -/
theorem Outcome.Good.of_nextPage {s s₁ : State} {count rounds k rounds' k' : ℕ} {o : Outcome}
    (h : o.Good s₁ count rounds k) (hnext : s₁.pool.nextPage = s.pool.nextPage) (hk : rounds ≤ k → rounds' ≤ k') :
    o.Good s count rounds' k' := by
  cases o with
  | returns page s' =>
      obtain ⟨hoffset, hnew, hwhole⟩ := h
      rw [hnext] at hoffset hnew
      exact ⟨hoffset, hnew, hwhole⟩
  | exits => trivial
  | running => exact hk h

/-- The loop's test, where nothing wraps. -/
theorem full_iff (p : Pool) {count : UInt32} (h : p.nextPage.toNat + count.toNat < 2 ^ 20) :
    p.capacity < (p.nextPage + count) * 4096 ↔ p.capacity.toNat < (p.nextPage.toNat + count.toNat) * 4096 := by
  have hadd : (p.nextPage + count).toNat = p.nextPage.toNat + count.toNat := by
    rw [UInt32.toNat_add]
    exact Nat.mod_eq_of_lt (by omega)
  rw [UInt32.lt_iff_toNat_lt, toNat_pages (by rw [hadd]; omega), hadd]

/-- **The loop hands out the pages or ends the process**, after as many rounds as the pool has to be doubled.  The
induction is on the number of times. -/
theorem good_allocPoolPages {s : State} {count : UInt32} {k : ℕ} (hwhole : Whole s.pool)
    (hneeded : s.pool.nextPage.toNat + count.toNat ≤ s.pool.capacity.toNat / 4096 * 2 ^ k)
    (hlt : s.pool.capacity.toNat / 4096 * 2 ^ k < 2 ^ 20) (rounds : ℕ) (newBases : ℕ → Option UInt32) :
    (allocPoolPages count rounds newBases s).Good s count.toNat rounds k := by
  induction k generalizing s rounds newBases with
  | zero =>
      cases rounds with
      | zero => exact Nat.le_refl 0
      | succ rounds =>
          have hsplit := Nat.div_mul_cancel hwhole.dvd
          have hfull := @full_iff s.pool count (by omega)
          rw [allocPoolPages, if_neg (by rw [hfull]; omega)]
          exact hands_take count hwhole (by omega)
  | succ k ih =>
      cases rounds with
      | zero => exact Nat.zero_le _
      | succ rounds =>
          have hsplit := Nat.div_mul_cancel hwhole.dvd
          have hpow : s.pool.capacity.toNat / 4096 * 2 ^ (k + 1) = s.pool.capacity.toNat / 4096 * 2 * 2 ^ k := by
            rw [Nat.pow_succ', Nat.mul_assoc]
          rw [hpow] at hneeded hlt
          have hdouble : s.pool.capacity.toNat / 4096 * 2 < 2 ^ 20 :=
            Nat.lt_of_le_of_lt (Nat.le_mul_of_pos_right _ (Nat.two_pow_pos k)) hlt
          have hfull := @full_iff s.pool count (by omega)
          rw [allocPoolPages]
          split_ifs with hgrow
          · cases hbase : newBases 0 with
            | none => trivial
            | some newBase =>
                cases hs : growPagePool (s.pool.capacity / 4096 * 2) (some newBase) s with
                | none => cases hs
                | some s' =>
                    obtain ⟨hwhole', hcap, hnext⟩ := whole_double hwhole hdouble hs
                    have hpages : s'.pool.capacity.toNat / 4096 = s.pool.capacity.toNat / 4096 * 2 := by
                      rw [hcap, Nat.mul_div_cancel _ (by decide)]
                    have hih := ih hwhole' (by rw [hnext, hpages]; exact hneeded) (by rw [hpages]; exact hlt) rounds
                      fun i => newBases (i + 1)
                    exact hih.of_nextPage hnext Nat.succ_le_succ
          · rw [hfull] at hgrow
            exact hands_take count hwhole (by omega)

theorem toNat_one : (1 : UInt32).toNat = 1 := rfl

theorem good_allocPoolPage {s : State} {k : ℕ} (hwhole : Whole s.pool)
    (hneeded : s.pool.nextPage.toNat + 1 ≤ s.pool.capacity.toNat / 4096 * 2 ^ k)
    (hlt : s.pool.capacity.toNat / 4096 * 2 ^ k < 2 ^ 20) (rounds : ℕ) (newBase : Option UInt32) :
    (allocPoolPage newBase s).Good s 1 rounds k := by
  have hsplit := Nat.div_mul_cancel hwhole.dvd
  have hnext := hwhole.next_le
  have hcap := s.pool.capacity.toNat_lt
  have hmul : (s.pool.nextPage * 4096).toNat = s.pool.nextPage.toNat * 4096 := toNat_pages (by omega)
  have hfull : s.pool.capacity ≤ s.pool.nextPage * 4096 ↔ s.pool.capacity.toNat ≤ s.pool.nextPage.toNat * 4096 := by
    rw [UInt32.le_iff_toNat_le, hmul]
  rw [allocPoolPage]
  split_ifs with hgrow
  · rw [hfull] at hgrow
    -- every page is handed out, and there is one, so that the pool is doubled at least once
    have hdouble : s.pool.capacity.toNat / 4096 * 2 < 2 ^ 20 := by
      cases k with
      | zero => omega
      | succ k =>
          have hpow : s.pool.capacity.toNat / 4096 * 2 ^ (k + 1) = s.pool.capacity.toNat / 4096 * 2 * 2 ^ k := by
            rw [Nat.pow_succ', Nat.mul_assoc]
          rw [hpow] at hlt
          exact Nat.lt_of_le_of_lt (Nat.le_mul_of_pos_right _ (Nat.two_pow_pos k)) hlt
    have hpos : 0 < s.pool.capacity.toNat / 4096 := by
      by_contra hzero
      obtain hzero : s.pool.capacity.toNat / 4096 = 0 := by omega
      rw [hzero, Nat.zero_mul] at hneeded
      omega
    cases newBase with
    | none => trivial
    | some newBase =>
        cases hs : growPagePool (s.pool.capacity / 4096 * 2) (some newBase) s with
        | none => cases hs
        | some s' =>
            obtain ⟨hwhole', hcap', hnext'⟩ := whole_double hwhole hdouble hs
            have hfit : (s'.pool.nextPage.toNat + (1 : UInt32).toNat) * 4096 ≤ s'.pool.capacity.toNat := by
              rw [hcap', hnext', toNat_one]
              exact Nat.mul_le_mul_right 4096 (by omega)
            obtain ⟨hoffset, hnew, hwhole''⟩ := hands_take 1 hwhole' hfit
            rw [hnext'] at hoffset hnew
            exact ⟨hoffset, hnew, hwhole''⟩
  · rw [hfull] at hgrow
    have hfit : (s.pool.nextPage.toNat + (1 : UInt32).toNat) * 4096 ≤ s.pool.capacity.toNat := by
      rw [← hsplit, toNat_one]
      exact Nat.mul_le_mul_right 4096 (by omega)
    exact hands_take 1 hwhole hfit

/-- What a call comes to if the pool has room for it. -/
theorem good_outcome {s : State} {e : Event} (hwhole : Whole s.pool)
    (hroom : Doubles s.pool (s.pool.nextPage.toNat + e.call.count)) :
    ∃ k, ∀ rounds, (outcome e rounds s).Good s e.call.count rounds k := by
  obtain ⟨k, hneeded, hlt⟩ := hroom
  refine ⟨k, fun rounds => ?_⟩
  unfold outcome
  cases hcall : e.call with
  | page =>
      rw [hcall] at hneeded
      exact good_allocPoolPage hwhole hneeded hlt rounds _
  | pages count =>
      rw [hcall] at hneeded
      exact good_allocPoolPages hwhole hneeded hlt rounds _

/-- The ranges lie before the next page. -/
def Inv : World → Prop
  | .live s ranges =>
    Whole s.pool ∧ (∀ r ∈ ranges, r.1 + r.2 ≤ s.pool.nextPage.toNat * 4096) ∧ ranges.Pairwise Apart
  | .ended => True
  | .hangs => False

theorem Inv.granted {w : World} (h : Inv w) : Granted w := by
  cases w with
  | live s ranges =>
      obtain ⟨hwhole, hranges, hapart⟩ := h
      exact ⟨fun r hr => Nat.le_trans (hranges r hr) hwhole.next_le, hapart⟩
  | ended => trivial
  | hangs => exact h

theorem inv_of_starts {w : World} (h : Starts w) : Inv w := by
  obtain ⟨numPages, base, before, s, -, hs, rfl⟩ := h
  cases hs
  refine ⟨⟨?_, ?_⟩, fun _ => List.not_mem_nil.elim, List.Pairwise.nil⟩
  · show 4096 ∣ (numPages * 4096).toNat
    rw [UInt32.toNat_mul]
    exact (Nat.dvd_mod_iff (by decide)).2 (Nat.dvd_mul_left _ _)
  · show 0 * 4096 ≤ _
    omega

/-- A call that has room keeps the invariant. -/
theorem inv_step {w w' : World} {e : Event} (h : Inv w) (hroom : HasRoom w e) (hstep : Step w e w') : Inv w' := by
  cases hstep with
  | @returns s s' ranges _ rounds page hout =>
      obtain ⟨hwhole, hranges, hapart⟩ := h
      obtain ⟨k, hgood⟩ := good_outcome hwhole hroom
      have hhands : Hands s e.call.count page s' := by
        have hgood := hgood rounds
        rw [hout] at hgood
        exact hgood
      obtain ⟨hoffset, hnext, hwhole'⟩ := hhands
      rw [hoffset]
      refine ⟨hwhole', fun r hr => ?_, List.pairwise_append.2 ⟨hapart, List.pairwise_singleton _ _, ?_⟩⟩
      · rw [hnext]
        rcases List.mem_append.1 hr with hr | hr
        · exact Nat.le_trans (hranges r hr) (Nat.mul_le_mul_right 4096 (Nat.le_add_right _ _))
        · obtain rfl := List.mem_singleton.1 hr
          exact Nat.le_of_eq (Nat.add_mul _ _ 4096).symm
      · intro r hr r' hr'
        rw [List.mem_singleton.1 hr']
        exact Or.inl (hranges r hr)
  | exits => trivial
  | @hangs s ranges _ hrunning =>
      -- a loop that has room ends
      obtain ⟨hwhole, -, -⟩ := h
      obtain ⟨k, hgood⟩ := good_outcome hwhole hroom
      have hgood := hgood (k + 1)
      rw [hrunning] at hgood
      exact absurd hgood (Nat.not_succ_le_self k)

/-- **The ranges of a run whose calls meet the condition.** -/
theorem granted_of_meets {w : World} {tr : List (Event × World)} (hstart : Starts w) (hrun : IsRun Step w tr)
    (hmeets : Meets HasRoom w tr) : Throughout Granted w tr := by
  have hinv : Throughout Inv w tr :=
    throughout_of_meets (fun _ _ _ h hroom hstep => inv_step h hroom hstep) (inv_of_starts hstart) hrun hmeets
  exact hinv.mono fun _ => Inv.granted

/-- A pool of one page, of which none is handed out. -/
def unused : State := ⟨⟨4096, 4096, 0⟩, [], [], memset (fun _ => 0) 4096 4096⟩

theorem starts_unused : Starts (.live unused []) :=
  ⟨1, 4096, ⟨⟨0, 0, 0⟩, [], [], fun _ => 0⟩, unused, by decide, rfl, rfl⟩

/-- `AllocPoolPage()`, which the pool has room for. -/
def firstPage : Event := ⟨.page, fun _ => none⟩

theorem step_firstPage : Step (.live unused []) firstPage (.live (take 1 unused).2 [(0, 4096)]) :=
  .returns (rfl : outcome firstPage 0 unused = .returns (take 1 unused).1 (take 1 unused).2)

/-- `AllocPoolPages(2)`, for which a pool of one page is doubled twice. -/
def twoPages : Event := ⟨.pages 2, fun i => if i = 0 then some 8192 else some 16384⟩

/-- The pool of four pages, of which three are handed out. -/
def doubled : State :=
  (take 2 (((growPagePool 2 (some 8192) (take 1 unused).2).bind (growPagePool 4 (some 16384))).getD unused)).2

theorem step_twoPages :
    Step (.live (take 1 unused).2 [(0, 4096)]) twoPages (.live doubled [(0, 4096), (4096, 8192)]) :=
  .returns (rfl : outcome twoPages 3 (take 1 unused).2 = .returns (16384 + 4096) doubled)

theorem step_lastPage : Step (.live doubled [(0, 4096), (4096, 8192)]) firstPage
    (.live (take 1 doubled).2 [(0, 4096), (4096, 8192), (12288, 4096)]) :=
  .returns (rfl : outcome firstPage 0 doubled = .returns (take 1 doubled).1 (take 1 doubled).2)

/-- A page, two pages for which the pool is doubled twice, and the last page of the larger pool. -/
theorem granted_of_meets_doubled :
    Throughout Granted (.live unused [])
      [(firstPage, .live (take 1 unused).2 [(0, 4096)]), (twoPages, .live doubled [(0, 4096), (4096, 8192)]),
        (firstPage, .live (take 1 doubled).2 [(0, 4096), (4096, 8192), (12288, 4096)])] :=
  granted_of_meets starts_unused ⟨step_firstPage, step_twoPages, step_lastPage, trivial⟩
    ⟨⟨0, by decide, by decide⟩, ⟨2, by decide, by decide⟩, ⟨0, by decide, by decide⟩, trivial⟩

/-- `AllocPoolPages((1 << 20) - 1)` -/
def manyPages : Event := ⟨.pages 0xFFFFF, fun _ => none⟩

/-- **With one page handed out, the size of 2²⁰ - 1 more is zero.** -/
theorem not_granted_pages :
    ¬ ∀ (w : World) (tr : List (Event × World)), Starts w → IsRun Step w tr → Throughout Granted w tr := by
  intro h
  have hmany : Step (.live (take 1 unused).2 [(0, 4096)]) manyPages
      (.live (take 0xFFFFF (take 1 unused).2).2 [(0, 4096), (4096, 0xFFFFF * 4096)]) :=
    .returns (rfl : outcome manyPages 1 (take 1 unused).2 =
      .returns (take 0xFFFFF (take 1 unused).2).1 (take 0xFFFFF (take 1 unused).2).2)
  have hall := h _ [(firstPage, _), (manyPages, _)] starts_unused ⟨step_firstPage, hmany, trivial⟩
  obtain ⟨hinside, -⟩ := hall.final
  exact absurd (hinside (4096, 0xFFFFF * 4096) (by decide)) (by decide)

end PagePool
