/-
**Ranges of the address space.**

`munmap`, the check of `MAP_FIXED_NOREPLACE` and the search for a free range walk through the page tables, and where
a table is missing they go on behind the pages that it would cover.  They take the whole span of the table from the
page where they stand.  If that is not the first page of the span, they come out in the middle of the next one, and
its first pages are not looked at: pages that are mapped there stay mapped, and are not seen.

A range of pages is dealt with as a whole, whatever is mapped, if and only if at each level of the tables it begins
at the first page of a span or ends in the span where it begins.

Main definitions:

* `AddressSpace.Vacant` — a range without mapped pages;
* `AddressSpace.Run` — where `RemoveVirtual` stands in a last table;
* `AddressSpace.onlyPage` — an address space with a single page.

Main results:

* `AddressSpace.pte_removeVirtual_of_outside` — **unmapping leaves the other pages alone**;
* `AddressSpace.removeVirtual_clears_iff` — **which ranges are unmapped whatever is mapped**;
* `AddressSpace.isFullyUnmapped_right_iff` — **for which ranges the check is right whatever is mapped**;
* `AddressSpace.findVirtual_first` — **the first free range is found**.
-/

import AtuaComputer.AddressSpace

set_option relaxedAutoImplicit false
set_option autoImplicit false

namespace AddressSpace

open RadixTables

/-- Two numbers of one page to the tables: they look at 36 bits. -/
def Same (p q : ℤ) : Prop := Agree 512 0 4 p q

theorem same_iff (p q : ℤ) : Same p q ↔ p % 2 ^ 36 = q % 2 ^ 36 := by
  rw [Same, agree_zero_iff]
  norm_num

theorem not_same {p q : ℤ} (h : p < q) (hlt : q < p + 2 ^ 36) : ¬ Same p q := by
  rw [same_iff]
  omega

/-! ### The operations, seen by lookups -/

section Lookups

variable (s : System)

theorem pte_congr {p q : ℤ} (h : Same p q) : s.pte q = s.pte p := lookup_congr h

theorem pte_of_stop_ne {p : ℤ} (h : s.stop p ≠ 0) : s.pte p = none := lookup_of_stop_pos h

theorem stop_of_pte {p : ℤ} {e : Pte} (h : s.pte p = some e) : s.stop p = 0 := stop_of_lookup h

@[simp] theorem stop_storePte (p q : ℤ) (e : Option Pte) : (s.storePte p e).stop q = s.stop q :=
  stop_store e 3 s.cr3 p q

theorem pte_storePte_none {p q : ℤ} (h : Same p q) : (s.storePte p none).pte q = none :=
  lookup_store_none_self 3 s.cr3 h

theorem pte_storePte_self {p q : ℤ} {e : Option Pte} (hstop : s.stop p = 0) (h : Same p q) :
    (s.storePte p e).pte q = e :=
  lookup_store_self hstop h

theorem pte_storePte_of_not_same {p q : ℤ} {e : Option Pte} (h : ¬ Same p q) : (s.storePte p e).pte q = s.pte q :=
  lookup_store_of_not_agree h

@[simp] theorem cr3_freePage (e : Pte) : (freePage e s).cr3 = s.cr3 := by
  rw [freePage]
  split <;> rfl

@[simp] theorem stop_freePage (e : Pte) (q : ℤ) : (freePage e s).stop q = s.stop q := by
  rw [System.stop, cr3_freePage, System.stop]

@[simp] theorem pte_freePage (e : Pte) (q : ℤ) : (freePage e s).pte q = s.pte q := by
  rw [System.pte, cr3_freePage, System.pte]

theorem removePage_some {p : ℤ} {e : Pte} (h : s.pte p = some e) :
    removePage s p = { freePage e (s.storePte p none) with vss := (freePage e (s.storePte p none)).vss - 1 } := by
  rw [removePage, h]

theorem removePage_none {p : ℤ} (h : s.pte p = none) : removePage s p = s := by
  rw [removePage, h]

@[simp] theorem stop_removePage (p q : ℤ) : (removePage s p).stop q = s.stop q := by
  cases h : s.pte p with
  | none => rw [removePage_none s h]
  | some e =>
      rw [removePage_some s h]
      exact (stop_freePage _ e q).trans (stop_storePte s p q none)

theorem pte_removePage_self {p q : ℤ} (hq : Same p q) : (removePage s p).pte q = none := by
  cases h : s.pte p with
  | none => rw [removePage_none s h, pte_congr s hq, h]
  | some e =>
      rw [removePage_some s h]
      exact (pte_freePage _ e q).trans (pte_storePte_none s hq)

theorem pte_removePage_of_not_same {p q : ℤ} (hq : ¬ Same p q) : (removePage s p).pte q = s.pte q := by
  cases h : s.pte p with
  | none => rw [removePage_none s h]
  | some e =>
      rw [removePage_some s h]
      exact (pte_freePage _ e q).trans (pte_storePte_of_not_same s hq)

theorem pte_removePage (p q : ℤ) : (removePage s p).pte q = none ∨ (removePage s p).pte q = s.pte q := by
  by_cases h : Same p q
  · exact .inl (pte_removePage_self s h)
  · exact .inr (pte_removePage_of_not_same s h)

theorem cr3_freeLeaf {p : ℤ} (h : LeafEmpty 3 s.cr3 p) (q : ℤ) : (freeLeaf s p).pte q = s.pte q := by
  rw [freeLeaf]
  cases leaf 3 s.cr3 p with
  | none => rfl
  | some l => exact lookup_dropLeaf h q

/-- Freeing a table changes no walk to a page of the next one. -/
theorem stop_freeLeaf {p q : ℤ} (h : q / 512 = p / 512 + 1) : (freeLeaf s p).stop q = s.stop q := by
  have hne : ¬ Agree 512 1 4 p q := by
    intro hag
    have hdigit := (digit_eq_iff 1 p q).1 (hag 1 (Nat.le_refl 1) (by decide))
    rw [pow_one, Nat.cast_ofNat] at hdigit
    omega
  rw [freeLeaf]
  cases leaf 3 s.cr3 p with
  | none => rfl
  | some l =>
      rw [System.stop, RadixTables.stop, walk_dropLeaf_of_not_agree hne]
      rfl

end Lookups

/-! ### Unmapping a range -/

/-- `RemoveVirtual` came down to a last table at `run` and has unmapped its pages up to `p`. -/
structure Run (s : System) (run p : ℤ) : Prop where
  le : run ≤ p
  block : run / 512 = p / 512
  clear : ∀ q, run ≤ q → q < p → s.pte q = none

theorem Run.start (s : System) (p : ℤ) : Run s p p :=
  ⟨le_rfl, rfl, fun q h₁ h₂ => absurd h₁ (by omega)⟩

theorem Run.next {s : System} {run p : ℤ} (h : Run s run p) (hlt : p % 512 < 511) :
    Run (removePage s p) run (p + 1) := by
  have hle := h.le
  have hblock := h.block
  refine ⟨by omega, by omega, fun q h₁ h₂ => ?_⟩
  by_cases hq : q = p
  · exact pte_removePage_self s (hq ▸ Agree.refl 0 4 p)
  · rcases pte_removePage s p q with hnone | hsame
    · exact hnone
    · rw [hsame, h.clear q h₁ (by omega)]

/-- A run from the first page of a table to its last one leaves the table empty. -/
theorem Run.leafEmpty {s : System} {run p : ℤ} (h : Run s run p) (hfirst : run % 512 = 0) (hlast : p % 512 = 511) :
    LeafEmpty 3 (removePage s p).cr3 p := by
  have hle := h.le
  have hblock := h.block
  refine leafEmpty_of_lookup fun q hq => ?_
  have hcast : ((512 : ℕ) : ℤ) = 512 := rfl
  rw [hcast] at hq
  by_cases heq : q = p
  · exact pte_removePage_self s (heq ▸ Agree.refl 0 4 p)
  · rcases pte_removePage s p q with hnone | hsame
    · exact hnone
    · exact hsame.trans (h.clear q (by omega) (by omega))

/-- The step of `RemoveVirtual` in a last table. -/
def removeStep (s : System) (run p e : ℤ) : System :=
  if p + 1 < e ∧ p % 512 < 511 then removePage s p
  else if run % 512 = 0 ∧ p % 512 = 511 then freeLeaf (removePage s p) p
  else removePage s p

/-- Where the run goes on from. -/
def nextRun (run p e : ℤ) : ℤ := if p + 1 < e ∧ p % 512 < 511 then run else p + 1

theorem removeVirtual_of_le {s : System} {run p e : ℤ} (h : e ≤ p) : removeVirtual s run p e = s := by
  rw [removeVirtual, if_neg (by omega)]

theorem removeVirtual_page {s : System} {run p e : ℤ} (h : p < e) (hstop : s.stop p = 0) :
    removeVirtual s run p e = removeVirtual (removeStep s run p e) (nextRun run p e) (p + 1) e := by
  rw [removeVirtual, if_pos h, if_pos hstop, removeStep, nextRun]
  dsimp only
  split
  · rfl
  · split <;> rfl

theorem removeVirtual_jump {s : System} {run p e : ℤ} (h : p < e) (hstop : s.stop p ≠ 0) :
    removeVirtual s run p e = removeVirtual s (p + s.stride p) (p + s.stride p) e := by
  rw [removeVirtual, if_pos h, if_neg hstop]

theorem pte_removeStep {s : System} {run p : ℤ} (e : ℤ) (h : Run s run p) (q : ℤ) :
    (removeStep s run p e).pte q = (removePage s p).pte q := by
  rw [removeStep]
  split
  · rfl
  · split
    · rename_i hfull
      exact cr3_freeLeaf _ (h.leafEmpty hfull.1 hfull.2) q
    · rfl

theorem stop_removeStep {s : System} {run p e : ℤ} : (removeStep s run p e).stop (p + 1) = s.stop (p + 1) := by
  rw [removeStep]
  split
  · exact stop_removePage s p (p + 1)
  · split
    · rename_i hfull
      exact (stop_freeLeaf _ (by omega)).trans (stop_removePage s p (p + 1))
    · exact stop_removePage s p (p + 1)

theorem Run.step {s : System} {run p : ℤ} (e : ℤ) (h : Run s run p) :
    Run (removeStep s run p e) (nextRun run p e) (p + 1) := by
  rw [removeStep, nextRun]
  split
  · rename_i hin
    exact h.next hin.2
  · exact Run.start _ (p + 1)

/-- **Unmapping leaves the other pages alone.** -/
theorem pte_removeVirtual_of_outside {s : System} {run p e q : ℤ} (h : Run s run p)
    (hq : ∀ r, p ≤ r → r < e → ¬ Same r q) : (removeVirtual s run p e).pte q = s.pte q := by
  obtain ⟨d, hd⟩ : ∃ d, d = (e - p).toNat := ⟨_, rfl⟩
  induction d using Nat.strong_induction_on generalizing s run p with
  | _ d ih =>
      by_cases hlt : p < e
      · by_cases hstop : s.stop p = 0
        · rw [removeVirtual_page hlt hstop,
            ih _ (by omega) (h.step e) (fun r h₁ h₂ => hq r (by omega) h₂) rfl, pte_removeStep e h,
            pte_removePage_of_not_same s (hq p le_rfl hlt)]
        · have hpos := s.stride_pos p
          rw [removeVirtual_jump hlt hstop]
          exact ih _ (by omega) (Run.start s _) (fun r h₁ h₂ => hq r (by omega) h₂) rfl
      · rw [removeVirtual_of_le (by omega)]

/-- No stride on the way from a page to the end passes over a page. -/
def NoneSkipped (s : System) (p e : ℤ) : Prop := Harmless 4 s.cr3 p e

theorem NoneSkipped.next {s : System} {p e : ℤ} (h : NoneSkipped s p e) (hlt : p + s.stride p < e) :
    NoneSkipped s (p + s.stride p) e :=
  Harmless.next h (by simpa only [System.stride, System.stop, Nat.cast_ofNat] using hlt)

theorem NoneSkipped.congr {s s' : System} {p e : ℤ} (h : NoneSkipped s p e) (hstop : s'.stop p = s.stop p) :
    NoneSkipped s' p e :=
  fun k hk => h k (Nat.le_trans hk hstop.le)

/-- The pages that a stride goes over have no entries. -/
theorem NoneSkipped.pte_none {s : System} {p e q : ℤ} (h : NoneSkipped s p e) (hnone : s.pte p = none) (hpq : p ≤ q)
    (hq : q < p + s.stride p) (hqe : q < e) : s.pte q = none := by
  have hdiv := Harmless.div_eq h hpq (by simpa only [System.stride, System.stop, Nat.cast_ofNat] using hq) hqe
  have hwalk := walk_congr (agree_of_div_eq (B := 512) (k := s.stop p) hdiv.symm 4)
  rw [System.pte, lookup, hwalk]
  exact hnone

/-- **A range in which no page is skipped is unmapped.** -/
theorem pte_removeVirtual_of_noneSkipped {s : System} {run p e q : ℤ} (h : Run s run p) (hskip : NoneSkipped s p e)
    (hpq : p ≤ q) (hqe : q < e) (hspan : e ≤ p + 2 ^ 36) : (removeVirtual s run p e).pte q = none := by
  obtain ⟨d, hd⟩ : ∃ d, d = (e - p).toNat := ⟨_, rfl⟩
  induction d using Nat.strong_induction_on generalizing s run p with
  | _ d ih =>
      have hlt : p < e := by omega
      by_cases hstop : s.stop p = 0
      · have hstride : s.stride p = 1 := by rw [System.stride, hstop, pow_zero]
        rw [removeVirtual_page hlt hstop]
        by_cases hq : q = p
        · subst hq
          rw [pte_removeVirtual_of_outside (h.step e) fun r h₁ h₂ hsame => not_same (by omega) (by omega) hsame.symm,
            pte_removeStep e h, pte_removePage_self s (Agree.refl 0 4 q)]
        · have hnext := hskip.next (by omega)
          rw [hstride] at hnext
          exact ih _ (by omega) (h.step e) (hnext.congr stop_removeStep) (by omega) (by omega) rfl
      · have hpos := s.stride_pos p
        rw [removeVirtual_jump hlt hstop]
        by_cases hq : q < p + s.stride p
        · rw [pte_removeVirtual_of_outside (Run.start s _) fun r h₁ h₂ hsame =>
            not_same (by omega) (by omega) hsame.symm]
          exact hskip.pte_none (pte_of_stop_ne s hstop) hpq hq hqe
        · exact ih _ (by omega) (Run.start s _) (hskip.next (by omega)) (by omega) (by omega) rfl

theorem noneSkipped_of_covers {p e : ℤ} (h : Covers 512 4 p e) (s : System) : NoneSkipped s p e := h.harmless s.cr3

/-! ### An address space with one page -/

/-- An address space in which a single page is mapped. -/
def onlyPage (p : ℤ) : System where
  cr3 := store (some ⟨⟨true, true, true⟩, .demand⟩) 3 (graft 3 [1, 2, 3] (bare 3 0) p) p
  pages := []
  nextPage := 4
  capacity := 2048
  mem _ _ := 0
  committed := 0
  reserved := 1
  tables := 4
  vss := 1
  rss := 4
  memchurn := 0
  invalidated := false
  automap := 0
  brk := 0

theorem pte_onlyPage_self (p : ℤ) : (onlyPage p).pte p = some ⟨⟨true, true, true⟩, .demand⟩ := by
  refine lookup_store_self ?_ (Agree.refl 0 4 p)
  rw [stop_graft, RadixTables.stop, walk_bare]
  rfl

theorem pte_onlyPage_of_not_same {p q : ℤ} (h : ¬ Same p q) : (onlyPage p).pte q = none := by
  refine (lookup_store_of_not_agree h).trans ?_
  rw [lookup_graft, lookup, walk_bare]

/-- Before the span of the page at some level, a stride is as long as that. -/
theorem le_stop_onlyPage {p q : ℤ} {k : ℕ} (hk : k < 4) (h : q / 512 ^ k = p / 512 ^ k + 1) :
    k ≤ (onlyPage q).stop p := by
  have hne : ¬ Agree 512 k 4 q p := by
    intro hag
    have hdigit := (digit_eq_iff k q p).1 (hag k (Nat.le_refl k) hk)
    rw [Nat.cast_ofNat, h] at hdigit
    omega
  rw [System.stop, onlyPage, stop_store]
  exact le_stop_graft_bare 0 [1, 2, 3] hne

/-- **Which ranges are skipped through.**  Where a span begins inside of a range that doesn't begin at the first page
of the span before it, a page is skipped if it is the only one. -/
theorem exists_skipped {p e : ℤ} (h : ¬ Covers 512 4 p e) :
    ∃ q, p < q ∧ q < e ∧ q < p + (onlyPage q).stride p ∧ (onlyPage q).stop p ≠ 0 := by
  obtain ⟨k, hk, hnot⟩ : ∃ k, k < 4 ∧ ¬ ((512 : ℤ) ^ k ∣ p ∨ e ≤ (p / 512 ^ k + 1) * 512 ^ k) := by
    by_contra hall
    refine h fun k hk => ?_
    by_contra hnot
    exact hall ⟨k, hk, hnot⟩
  rw [not_or, not_le] at hnot
  obtain ⟨hdvd, hlt⟩ := hnot
  have hpow : (0 : ℤ) < 512 ^ k := pow_pos (by decide) k
  have hmod := Int.emod_add_mul_ediv p (512 ^ k)
  have hmod0 : 0 < p % 512 ^ k :=
    lt_of_le_of_ne (Int.emod_nonneg p hpow.ne') fun heq => hdvd (Int.dvd_of_emod_eq_zero heq.symm)
  have hmodlt := Int.emod_lt_of_pos p hpow
  obtain ⟨q, hq⟩ : ∃ q, q = (p / 512 ^ k + 1) * 512 ^ k := ⟨_, rfl⟩
  have hdist : q = p - p % 512 ^ k + 512 ^ k := by
    rw [hq]
    linear_combination hmod
  have hdiv : q / 512 ^ k = p / 512 ^ k + 1 := by rw [hq, Int.mul_ediv_cancel _ hpow.ne']
  have hstop := le_stop_onlyPage hk hdiv
  have hstride : (512 : ℤ) ^ k ≤ (onlyPage q).stride p := pow_le_pow_right₀ (by decide) hstop
  have hk0 : k ≠ 0 := by
    rintro rfl
    exact hdvd (by rw [pow_zero]; exact one_dvd p)
  refine ⟨q, by omega, by omega, by omega, by omega⟩

/-! ### Which ranges are dealt with as a whole -/

/-- No page of a range is mapped. -/
def Vacant (s : System) (p e : ℤ) : Prop := ∀ q, p ≤ q → q < e → s.pte q = none

/-- **The ranges that are unmapped whatever is mapped.**  A range of pages is free after `RemoveVirtual` in every
address space if and only if at each level it begins at the first page of a span or ends in the span where it
begins. -/
theorem removeVirtual_clears_iff {p e : ℤ} (hspan : e ≤ p + 2 ^ 36) :
    (∀ s : System, Vacant (removeVirtual s p p e) p e) ↔ Covers 512 4 p e := by
  constructor
  · intro h
    by_contra hnot
    obtain ⟨q, hpq, hqe, hjump, hstop⟩ := exists_skipped hnot
    have hgone := h (onlyPage q) q hpq.le hqe
    rw [removeVirtual_jump (by omega) hstop,
      pte_removeVirtual_of_outside (Run.start _ _) fun r h₁ h₂ hsame => not_same (by omega) (by omega) hsame.symm,
      pte_onlyPage_self] at hgone
    cases hgone
  · intro h s q hpq hqe
    exact pte_removeVirtual_of_noneSkipped (Run.start s p) (noneSkipped_of_covers h s) hpq hqe hspan

/-! ### Asking for free pages -/

theorem isFullyUnmapped_of_le {s : System} {p e : ℤ} (h : e ≤ p) : isFullyUnmapped s p e = true := by
  rw [isFullyUnmapped, if_neg (by omega)]

theorem isFullyUnmapped_some {s : System} {p e : ℤ} (h : p < e) (hsome : s.pte p ≠ none) :
    isFullyUnmapped s p e = false := by
  rw [isFullyUnmapped, if_pos h, if_pos (Option.isSome_iff_ne_none.2 hsome)]

theorem isFullyUnmapped_none {s : System} {p e : ℤ} (h : p < e) (hnone : s.pte p = none) :
    isFullyUnmapped s p e = isFullyUnmapped s (p + s.stride p) e := by
  rw [isFullyUnmapped, if_pos h, if_neg (by rw [hnone]; decide)]

/-- A free range is said to be free. -/
theorem isFullyUnmapped_of_vacant {s : System} {p e : ℤ} (h : Vacant s p e) : isFullyUnmapped s p e = true := by
  obtain ⟨d, hd⟩ : ∃ d, d = (e - p).toNat := ⟨_, rfl⟩
  induction d using Nat.strong_induction_on generalizing p with
  | _ d ih =>
      by_cases hlt : p < e
      · have hpos := s.stride_pos p
        rw [isFullyUnmapped_none hlt (h p le_rfl hlt)]
        exact ih _ (by omega) (fun q h₁ h₂ => h q (by omega) h₂) rfl
      · exact isFullyUnmapped_of_le (by omega)

/-- What is said to be free is free, unless pages are skipped. -/
theorem vacant_of_isFullyUnmapped {s : System} {p e : ℤ} (hskip : NoneSkipped s p e)
    (h : isFullyUnmapped s p e = true) : Vacant s p e := by
  obtain ⟨d, hd⟩ : ∃ d, d = (e - p).toNat := ⟨_, rfl⟩
  induction d using Nat.strong_induction_on generalizing p with
  | _ d ih =>
      intro q hpq hqe
      have hlt : p < e := by omega
      have hpos := s.stride_pos p
      have hnone : s.pte p = none := by
        by_contra hsome
        rw [isFullyUnmapped_some hlt hsome] at h
        cases h
      rw [isFullyUnmapped_none hlt hnone] at h
      by_cases hq : q < p + s.stride p
      · exact hskip.pte_none hnone hpq hq hqe
      · exact ih _ (by omega) (hskip.next (by omega)) h rfl q (by omega) hqe

/-- Where a range isn't dealt with as a whole, a page of it can be there without being seen. -/
theorem exists_unseen {p e : ℤ} (hspan : e ≤ p + 2 ^ 36) (h : ¬ Covers 512 4 p e) :
    ∃ q, p ≤ q ∧ q < e ∧ isFullyUnmapped (onlyPage q) p e = true := by
  obtain ⟨q, hpq, hqe, hjump, hstop⟩ := exists_skipped h
  refine ⟨q, hpq.le, hqe, ?_⟩
  rw [isFullyUnmapped_none (by omega) (pte_of_stop_ne _ hstop)]
  refine isFullyUnmapped_of_vacant fun r h₁ h₂ => ?_
  exact pte_onlyPage_of_not_same (not_same (by omega) (by omega))

/-- **The ranges for which the check of `MAP_FIXED_NOREPLACE` is right whatever is mapped.** -/
theorem isFullyUnmapped_right_iff {p e : ℤ} (hspan : e ≤ p + 2 ^ 36) :
    (∀ s : System, isFullyUnmapped s p e = true ↔ Vacant s p e) ↔ Covers 512 4 p e := by
  constructor
  · intro h
    by_contra hnot
    obtain ⟨q, hpq, hqe, hfree⟩ := exists_unseen hspan hnot
    have hgone := (h (onlyPage q)).1 hfree q hpq hqe
    rw [pte_onlyPage_self] at hgone
    cases hgone
  · intro h s
    exact ⟨vacant_of_isFullyUnmapped (noneSkipped_of_covers h s), isFullyUnmapped_of_vacant⟩

/-- Every page of a range is mapped. -/
def Mapped (s : System) (p e : ℤ) : Prop := ∀ q, p ≤ q → q < e → s.pte q ≠ none

theorem isFullyMapped_iff (s : System) (p e : ℤ) : isFullyMapped s p e = true ↔ Mapped s p e := by
  obtain ⟨d, hd⟩ : ∃ d, d = (e - p).toNat := ⟨_, rfl⟩
  induction d using Nat.strong_induction_on generalizing p with
  | _ d ih =>
      rw [isFullyMapped]
      by_cases hlt : p < e
      · rw [if_pos hlt]
        cases hp : s.pte p with
        | none => exact iff_of_false (by simp) fun h => h p le_rfl hlt hp
        | some x =>
            rw [Option.isSome_some, if_pos rfl, ih _ (by omega) _ rfl]
            constructor
            · intro h q h₁ h₂
              rcases eq_or_lt_of_le h₁ with rfl | hne
              · rw [hp]
                exact Option.some_ne_none x
              · exact h q hne h₂
            · exact fun h q h₁ h₂ => h q (by omega) h₂
      · rw [if_neg hlt]
        exact iff_of_true rfl fun q h₁ h₂ => absurd h₁ (by omega)

/-! ### The search for free pages -/

theorem le_pagesOf_mul (size : ℤ) : size ≤ pagesOf size * 4096 := by
  rw [pagesOf]
  omega

/-- Ranges of the lower and the upper half are valid. -/
theorem isValidAddrSize_of_le {p size : ℤ} (hp : -2 ^ 35 ≤ p) (hsize : 0 < size) (he : p + pagesOf size ≤ 2 ^ 35) :
    IsValidAddrSize (p * 4096) size := by
  have hle := le_pagesOf_mul size
  have hbmod : (p * 4096).bmod (2 ^ 48) = p * 4096 := by
    apply Int.bmod_eq_of_le <;> omega
  refine ⟨hsize, by omega, by omega, ?_⟩
  rw [hbmod]
  omega

/-- A step of the search at a page that is mapped. -/
theorem findVirtual_some {s : System} {size p got : ℤ} (fuel : ℕ) (hvalid : IsValidAddrSize (p * 4096) size)
    (h : s.pte (p + got) ≠ none) :
    findVirtual s size (fuel + 1) p got = findVirtual s size fuel (p + got + 1) 0 := by
  rw [findVirtual, if_neg fun hboth => hboth.2 hvalid, if_pos (Option.isSome_iff_ne_none.2 h)]

theorem findVirtual_none {s : System} {size p got : ℤ} (fuel : ℕ) (hvalid : IsValidAddrSize (p * 4096) size)
    (h : s.pte (p + got) = none) :
    findVirtual s size (fuel + 1) p got =
      if got + s.stride (p + got) < pagesOf size then findVirtual s size fuel p (got + s.stride (p + got))
      else some (.ok p) := by
  rw [findVirtual, if_neg fun hboth => hboth.2 hvalid, if_neg (by rw [h]; decide)]

/-- The search from a page on, when some pages have been found free. -/
theorem findVirtual_of_vacant {s : System} {size p got u e : ℤ} {fuel : ℕ} (hsize : 0 < size)
    (hlow : -2 ^ 35 ≤ p) (hhigh : e ≤ 2 ^ 35) (hskip : NoneSkipped s (p + got) e) (hgot : 0 ≤ got)
    (hlt : got < pagesOf size) (hseen : Vacant s p (p + got)) (hpu : p ≤ u) (hue : u + pagesOf size ≤ e)
    (hfree : Vacant s u (u + pagesOf size)) (hfuel : (e - (p + got)).toNat < fuel) :
    ∃ v, p ≤ v ∧ v ≤ u ∧ Vacant s v (v + pagesOf size) ∧
      (∀ w, p ≤ w → w < v → ¬ Vacant s w (w + pagesOf size)) ∧ findVirtual s size fuel p got = some (.ok v) := by
  induction fuel generalizing p got with
  | zero => exact absurd hfuel (by omega)
  | succ fuel ih =>
      have hvalid := isValidAddrSize_of_le hlow hsize (by omega)
      have hpos := s.stride_pos (p + got)
      cases hp : s.pte (p + got) with
      | some x =>
          have hsome : s.pte (p + got) ≠ none := by simp [hp]
          -- the page that is mapped lies before the free range
          have hbefore : p + got < u := by
            by_contra hnot
            exact hsome (hfree _ (by omega) (by omega))
          have hstride : s.stride (p + got) = 1 := by rw [System.stride, stop_of_pte s hp, pow_zero]
          have hnext : NoneSkipped s (p + got + 1 + 0) e := by
            have := hskip.next (by omega)
            rwa [hstride, ← add_zero (p + got + 1)] at this
          obtain ⟨v, hv₁, hv₂, hv₃, hv₄, hv₅⟩ := ih (by omega) hnext le_rfl (by omega)
            (fun q h₁ h₂ => absurd h₁ (by omega)) (by omega) (by omega)
          refine ⟨v, by omega, hv₂, hv₃, fun w h₁ h₂ hvac => ?_, ?_⟩
          · by_cases hw : w ≤ p + got
            · exact hsome (hvac _ hw (by omega))
            · exact hv₄ w (by omega) h₂ hvac
          · rw [findVirtual_some fuel hvalid hsome, hv₅]
      | none =>
          have hseen' : ∀ q, p ≤ q → q < p + got + s.stride (p + got) → q < e → s.pte q = none := by
            intro q h₁ h₂ h₃
            by_cases hq : q < p + got
            · exact hseen q h₁ hq
            · exact hskip.pte_none hp (by omega) h₂ h₃
          rw [findVirtual_none fuel hvalid hp]
          split
          · rename_i hmore
            have hnext := hskip.next (by omega)
            rw [add_assoc] at hnext
            exact ih hlow hnext (by omega) hmore (fun q h₁ h₂ => hseen' q h₁ (by omega) (by omega)) hpu (by omega)
          · refine ⟨p, le_rfl, hpu, fun q h₁ h₂ => hseen' q h₁ (by omega) (by omega), fun w h₁ h₂ => ?_, rfl⟩
            exact absurd h₁ (by omega)

/-- **The first free range is found.**  If there are enough pages in a row before an end, and the pages from the
first one up to the end make a range without skipped pages, the search answers with the first place where the pages
are free. -/
theorem findVirtual_first {s : System} {size p u e : ℤ} {fuel : ℕ} (hsize : 0 < size) (hlow : -2 ^ 35 ≤ p)
    (hhigh : e ≤ 2 ^ 35) (hcovers : Covers 512 4 p e) (hpu : p ≤ u) (hue : u + pagesOf size ≤ e)
    (hfree : Vacant s u (u + pagesOf size)) (hfuel : (e - p).toNat < fuel) :
    ∃ v, p ≤ v ∧ v ≤ u ∧ Vacant s v (v + pagesOf size) ∧
      (∀ w, p ≤ w → w < v → ¬ Vacant s w (w + pagesOf size)) ∧ findVirtual s size fuel p 0 = some (.ok v) := by
  have hle := le_pagesOf_mul size
  refine findVirtual_of_vacant hsize hlow hhigh ?_ le_rfl (by omega) (fun q h₁ h₂ => absurd h₁ (by omega)) hpu hue hfree
    (by omega)
  rw [add_zero]
  exact noneSkipped_of_covers hcovers s

/-- Two pages behind one that is mapped. -/
theorem findVirtual_onlyPage :
    ∃ v, 0 ≤ v ∧ v ≤ 2 ∧ Vacant (onlyPage 1) v (v + pagesOf 8192) ∧
      (∀ w, 0 ≤ w → w < v → ¬ Vacant (onlyPage 1) w (w + pagesOf 8192)) ∧
      findVirtual (onlyPage 1) 8192 5 0 0 = some (.ok v) := by
  have hpages : pagesOf 8192 = 2 := by decide
  refine findVirtual_first (u := 2) (e := 4) (by decide) (by decide) (by decide) (by decide) (by decide) (by decide)
    (fun q h₁ h₂ => ?_) (by decide)
  exact pte_onlyPage_of_not_same (not_same (by omega) (by omega))

end AddressSpace
