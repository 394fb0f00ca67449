/-
**What a program sees of its memory.**

To a program its memory is a function from pages to their protection and their bytes, and a break.  A mapping puts
pages there, unmapping takes them away, `mprotect` changes their protection, `brk` does one of the first two at the
break, and a store changes a byte.  The translation buffer, the first use of a page, the tables and their removal
can't be seen, as long as each range of pages is dealt with as a whole and the pool stays in place.

A range that is not dealt with as a whole can keep pages that `munmap` was to take away, and `MAP_FIXED_NOREPLACE` can
replace pages of it.

Main definitions:

* `AddressSpace.Guest`, `AddressSpace.Replaced` — what a program sees, and a range that gets another content;
* `AddressSpace.Shows` — what a call answers, and does to what the program sees;
* `AddressSpace.Orderly` — the calls for which this is so.

Main results:

* `AddressSpace.shows_after` — **a call does what it shows**;
* `AddressSpace.sysMunmap_unmapped_iff` — **the ranges for which `munmap` does its work whatever is mapped**;
* `AddressSpace.sysMmap_noreplace_iff` — **the ranges for which `MAP_FIXED_NOREPLACE` replaces nothing**;
* `AddressSpace.shown_run` — **a run of orderly calls is a run of the memory that the program sees**.
-/

import AtuaComputer.GuestMemory
import AtuaComputer.Runs

set_option relaxedAutoImplicit false
set_option autoImplicit false

namespace AddressSpace

open RadixTables Runs

/-! ### Protection -/

/-- An entry has a page of its own whatever its protection. -/
theorem owned_prot (e : Pte) (key : Prot) : owned { e with prot := key } = owned e := rfl

/-- One page of `ProtectVirtual`. -/
def protectPage (key : Prot) (s : System) (p : ℤ) : System :=
  (s.pte p).elim s fun e => s.storePte p (some { e with prot := key })

theorem protectPages_succ (key : Prot) (count : ℕ) (p : ℤ) (s : System) :
    protectPages key (count + 1) p s = protectPages key count (p + 1) (protectPage key s p) := rfl

/-- A step that changes protections and nothing else. -/
structure Protects (s s' : System) : Prop where
  sound : ∀ x, Sound s x → Sound s' x
  balanced : ∀ c r t h v, Balanced s c r t h v → Balanced s' c r t h v
  capacity : s'.capacity = s.capacity
  brk : s'.brk = s.brk

theorem Protects.trans {s₁ s₂ s₃ : System} (h : Protects s₁ s₂) (h' : Protects s₂ s₃) : Protects s₁ s₃ where
  sound x hx := h'.sound x (h.sound x hx)
  balanced c r t n v hb := h'.balanced c r t n v (h.balanced c r t n v hb)
  capacity := h'.capacity.trans h.capacity
  brk := h'.brk.trans h.brk

theorem protects_protectPage (key : Prot) (s : System) (p : ℤ) : Protects s (protectPage key s p) := by
  rw [protectPage]
  cases hp : s.pte p with
  | none => exact ⟨fun _ h => h, fun _ _ _ _ _ h => h, rfl, rfl⟩
  | some e =>
      refine ⟨fun x hx => hx.exchange _ hp (owned_prot e key), fun c r t h v hb => ?_, rfl, rfl⟩
      have hstore := hb.storePte (some { e with prot := key }) (stop_of_pte s hp)
      rw [hp] at hstore
      simp only [weight_some] at hstore
      have hc : committedOf { e with prot := key } = committedOf e := rfl
      have hr : reservedOf { e with prot := key } = reservedOf e := rfl
      rw [hc, hr] at hstore
      simpa only [Option.elim_some, add_sub_cancel_right] using hstore

theorem view_protectPage (key : Prot) (s : System) (p q : ℤ) :
    (Same p q → (protectPage key s p).view q = (s.view q).map fun x => (key, x.2)) ∧
      (¬ Same p q → (protectPage key s p).view q = s.view q) := by
  rw [protectPage]
  cases hp : s.pte p with
  | none =>
      refine ⟨fun hq => ?_, fun _ => rfl⟩
      have hnone : s.view q = none := view_eq_none.2 ((pte_congr s hq).trans hp)
      rw [Option.elim_none, hnone]
      rfl
  | some e =>
      rw [Option.elim_some]
      constructor
      · intro hq
        rw [view_of_pte ((pte_congr s hq).trans hp), Option.map_some]
        exact view_of_pte (pte_storePte_self s (stop_of_pte s hp) hq)
      · intro hq
        have hmem : (s.storePte p (some { e with prot := key })).mem = s.mem := rfl
        rw [System.view, System.view, pte_storePte_of_not_same s hq, hmem]

/-- **The pages of a range get a protection, and the others keep theirs.** -/
theorem protects_protectPages (key : Prot) (count : ℕ) (p : ℤ) (s : System) :
    Protects s (protectPages key count p s) ∧ ∀ q,
      ((∃ i : ℕ, i < count ∧ Same (p + i) q) →
        (protectPages key count p s).view q = (s.view q).map fun x => (key, x.2)) ∧
      ((∀ i : ℕ, i < count → ¬ Same (p + i) q) → (protectPages key count p s).view q = s.view q) := by
  induction count generalizing p s with
  | zero =>
      refine ⟨⟨fun _ h => h, fun _ _ _ _ _ h => h, rfl, rfl⟩, fun q => ⟨?_, fun _ => rfl⟩⟩
      rintro ⟨i, hi, -⟩
      exact absurd hi (Nat.not_lt_zero i)
  | succ count ih =>
      obtain ⟨hprotects, hview⟩ := ih (p + 1) (protectPage key s p)
      rw [protectPages_succ]
      refine ⟨(protects_protectPage key s p).trans hprotects, fun q => ?_⟩
      obtain ⟨hin, hout⟩ := hview q
      obtain ⟨hself, hother⟩ := view_protectPage key s p q
      have hshift (i : ℕ) : p + 1 + (i : ℤ) = p + (i + 1 : ℕ) := by
        push_cast
        ring
      constructor
      · -- the page is met at the first round, later, or at both: 36 bits can be the same twice
        rintro ⟨i, hi, hsame⟩
        by_cases hrest : ∃ j : ℕ, j < count ∧ Same (p + 1 + j) q
        · rw [hin hrest]
          by_cases hp : Same p q
          · rw [hself hp, Option.map_map]
            rfl
          · rw [hother hp]
        · rw [hout fun j hj hj' => hrest ⟨j, hj, hj'⟩]
          cases i with
          | zero =>
              rw [Nat.cast_zero, add_zero] at hsame
              exact hself hsame
          | succ i => exact absurd ⟨i, by omega, hshift i ▸ hsame⟩ hrest
      · intro hnone
        have hp : ¬ Same p q := by
          have := hnone 0 (by omega)
          rwa [Nat.cast_zero, add_zero] at this
        rw [hout fun j hj hj' => hnone (j + 1) (by omega) (hshift j ▸ hj'), hother hp]

/-! ### What a program sees -/

/-- The protection and the bytes of the pages. -/
abbrev View := ℤ → Option (Prot × Page)

/-- What a program sees: its pages, and the break. -/
structure Guest where
  pages : View
  brk : ℤ

/-- What the program of a machine sees. -/
def Machine.guest (m : Machine) : Guest := ⟨m.system.view, m.system.brk⟩

/-- The pages of a range get another content, and the others keep theirs. -/
structure Replaced (v v' : View) (p : ℤ) (count : ℤ) (new : ℕ → Option (Prot × Page)) : Prop where
  inside : ∀ i : ℕ, (i : ℤ) < count → v' (p + i) = new i
  outside : ∀ q, (∀ i : ℕ, (i : ℤ) < count → ¬ Same (p + i) q) → v' q = v q

/-- The calls of a program that concern its memory. -/
inductive Call where
  | mmap (virt size : ℤ) (prot : HostProt) (flags : MapFlags) (fildes : Option (Option Descriptor)) (offset : ℤ)
  | munmap (virt size : ℤ)
  | mprotect (virt size : ℤ) (prot : HostProt)
  | brk (addr : ℤ)
  | load (p : ℤ) (i : Fin 4096) (need : Need)
  | store (p : ℤ) (i : Fin 4096) (b : UInt8) (need : Need)

/-- The answer of a call. -/
inductive Answer where
  | address (a : ℤ)
  | done
  | byte (b : UInt8)
  | error (e : Errno)
  | fault

section Calls

variable (limits : Limits) (auto : AutoMap) (fuel : ℕ)

/-- A call; without an answer the search for a free range takes too many steps. -/
def after (m : Machine) : Call → Option (Answer × Machine)
  | .mmap virt size prot flags fildes offset =>
    (sysMmap limits auto fuel m.system virt size prot flags fildes offset).map fun r =>
      (match r.1 with
        | .ok a => .address a
        | .error e => .error e, { m with system := r.2 })
  | .munmap virt size =>
    let r := sysMunmap m.system virt size
    some (match r.1 with
      | .ok _ => .done
      | .error e => .error e, { m with system := r.2 })
  | .mprotect virt size prot =>
    let r := sysMprotect m.system virt size prot
    some (match r.1 with
      | .ok _ => .done
      | .error e => .error e, { m with system := r.2 })
  | .brk addr =>
    let r := sysBrk limits m.system addr
    some (.address r.1, { m with system := r.2 })
  | .load p i need =>
    let r := loadByte m p i need
    some (r.1.elim .fault .byte, r.2)
  | .store p i b need =>
    let r := storeByte m p i b need
    some (if r.1 then .done else .fault, r.2)

end Calls

/-- What a call does to the pages, for its answer. -/
def ShowsPages (g : Guest) (call : Call) (answer : Answer) (v' : View) : Prop :=
  match call, answer with
  | .mmap _ size prot flags fildes offset, .address a =>
    ∃ src, mapSource prot flags fildes offset = .ok src ∧
      Replaced g.pages v' (a / 4096) (pagesOf size) fun i => some (prot2Page prot, src.page (size - 4096 * i) i)
  | .munmap virt size, .done => Replaced g.pages v' (virt / 4096) (pagesOf size) fun _ => none
  | .mprotect virt size prot, .done =>
    (∀ i : ℕ, (i : ℤ) < pagesOf size → g.pages (virt / 4096 + i) ≠ none) ∧
      Replaced g.pages v' (virt / 4096) (pagesOf size) fun i =>
        (g.pages (virt / 4096 + i)).map fun x => (setProtection prot, x.2)
  | .brk addr, .address a =>
    if a = g.brk then ∀ q, v' q = g.pages q
    else a = (addr + 4095) / 4096 * 4096 ∧
      if g.brk < a then
        Replaced g.pages v' (g.brk / 4096) (pagesOf (a - g.brk)) fun _ => some (⟨true, true, true⟩, fun _ => 0)
      else Replaced g.pages v' (a / 4096) (pagesOf (g.brk - a)) fun _ => none
  | .load p i need, answer =>
    answer = ((seen g.pages p need).elim .fault fun x => .byte (x.2 i)) ∧ ∀ q, v' q = g.pages q
  | .store p i b need, .done =>
    (seen g.pages p need).isSome ∧
      Replaced g.pages v' p 1 fun _ => (g.pages p).map fun x => (x.1, Function.update x.2 i b)
  | .store p _ _ need, .fault => seen g.pages p need = none ∧ ∀ q, v' q = g.pages q
  | _, .error _ => ∀ q, v' q = g.pages q
  | _, _ => False

/-- The break after a call. -/
def brkAfter (g : Guest) (call : Call) (answer : Answer) : ℤ :=
  match call, answer with
  | .brk _, .address a => a
  | _, _ => g.brk

/-- What a call shows: its answer, and what the program sees before and after it. -/
structure Shows (g : Guest) (call : Call) (answer : Answer) (g' : Guest) : Prop where
  pages : ShowsPages g call answer g'.pages
  brk : g'.brk = brkAfter g call answer

/-- The range that a call unmaps, or maps. -/
def rangeOf (g : Guest) : Call → Answer → Option (ℤ × ℤ)
  | .mmap _ size _ _ _ _, .address a => some (a / 4096, pagesOf size)
  | .munmap virt size, .done => some (virt / 4096, pagesOf size)
  | .brk _, .address a =>
    if g.brk < a then some (g.brk / 4096, pagesOf (a - g.brk)) else some (a / 4096, pagesOf (g.brk - a))
  | _, _ => none

/-- A call gives empty tables back. -/
def Cleanses : Call → Prop
  | .mmap .. => True
  | .brk _ => True
  | _ => False

/-- A call whose range is dealt with as a whole, with the pool in place before and after it; and if tables are to be
given back, some page is mapped. -/
structure Orderly (m : Machine) (call : Call) (answer : Answer) (m' : Machine) : Prop where
  inPlace : InPlace m.system m'.system
  mapped : Cleanses call → m.system.rss / 2 ≤ m.system.memchurn → ∃ p, m.system.pte p ≠ none
  covers : ∀ p count, rangeOf m.guest call answer = some (p, count) → Covers 512 4 p (p + count)

/-- What holds of a machine between the calls, with the numbers that are kept ahead of the tables by some amounts. -/
structure Good (m : Machine) (c r t h v : ℤ) : Prop where
  sound : Sound m.system 0
  balanced : Balanced m.system c r t h v
  coherent : Coherent m

/-! ### The calls -/

theorem pagesOf_le {virt size : ℤ} (h : IsValidAddrSize virt size) : pagesOf size ≤ 2 ^ 36 := by
  have hsize := h.2.2.1
  rw [pagesOf]
  omega

variable {limits : Limits} {auto : AutoMap} {fuel : ℕ} {m m' : Machine} {answer : Answer} {c r t h v : ℤ}

/-- What is vacant after unmapping a range that is dealt with as a whole. -/
theorem vacant_removeVirtual {p e : ℤ} (hcovers : Covers 512 4 p e) (hspan : e ≤ p + 2 ^ 36) (s : System) :
    Vacant (removeVirtual s p p e) p e :=
  fun _ h₁ h₂ => pte_removeVirtual_of_noneSkipped (Run.start s p) (noneSkipped_of_covers hcovers s) h₁ h₂ hspan

/-- Unmapping a range that is dealt with as a whole. -/
theorem good_freeVirtual {virt size : ℤ} (hgood : Good m c r t h v) (hvalid : IsValidAddrSize virt size)
    (hcovers : Covers 512 4 (virt / 4096) (virt / 4096 + pagesOf size)) :
    ∃ s', freeVirtual m.system virt size = (.ok (), s') ∧ Good { m with system := s' } c r t h v ∧
      Replaced m.system.view s'.view (virt / 4096) (pagesOf size) (fun _ => none) ∧ s'.brk = m.system.brk := by
  obtain ⟨p, hp⟩ : ∃ p, p = virt / 4096 := ⟨_, rfl⟩
  rw [freeVirtual, if_pos hvalid, ← hp]
  rw [← hp] at hcovers
  obtain ⟨s', hs'⟩ : ∃ s', s' = removeVirtual m.system p p (p + pagesOf size) := ⟨_, rfl⟩
  have hgives := gives_removeVirtual (p + pagesOf size) (Run.start m.system p)
  have hretains := retains_removeVirtual (p + pagesOf size) (Run.start m.system p)
  have hvacant := vacant_removeVirtual hcovers (by have := pagesOf_le hvalid; omega) m.system
  have hout (q : ℤ) (hq : ∀ i : ℕ, (i : ℤ) < pagesOf size → ¬ Same (p + i) q) :
      (removeVirtual m.system p p (p + pagesOf size)).pte q = m.system.pte q := by
    refine pte_removeVirtual_of_outside (Run.start m.system p) fun x h₁ h₂ => ?_
    have := hq (x - p).toNat (by omega)
    rwa [Int.toNat_of_nonneg (by omega), add_sub_cancel] at this
  rw [← hs'] at hgives hretains hvacant hout ⊢
  refine ⟨_, rfl, ⟨(hgives.sound 0 hgood.sound).congr rfl rfl rfl rfl, ?_, ?_⟩, ⟨fun i hi => ?_, fun q hq => ?_⟩,
    hretains.brk⟩
  · exact (hgives.balanced c r t h v hgood.balanced).congr rfl rfl rfl rfl rfl rfl
  · exact hgood.coherent.retains (hretains.trans (retains_of_pte rfl rfl fun _ => rfl))
  · exact view_eq_none.2 (hvacant _ (by omega) (by omega))
  · exact hgives.view hgood.sound (hout q hq)

theorem shows_munmap {virt size : ℤ} (hgood : Good m c r t h v)
    (hafter : after limits auto fuel m (.munmap virt size) = some (answer, m'))
    (horderly : Orderly m (.munmap virt size) answer m') :
    Good m' c r t h v ∧ Shows m.guest (.munmap virt size) answer m'.guest := by
  rw [after, sysMunmap] at hafter
  by_cases hvalid : IsValidAddrSize virt size
  · have hanswer : answer = .done := by
      rw [freeVirtual, if_pos hvalid] at hafter
      cases hafter
      rfl
    rw [hanswer] at horderly
    obtain ⟨s', hfree, hgood', hreplaced, hbrk⟩ := good_freeVirtual hgood hvalid (horderly.covers _ _ rfl)
    rw [hfree] at hafter
    cases hafter
    exact ⟨hgood', hreplaced, hbrk⟩
  · rw [freeVirtual, if_neg hvalid] at hafter
    cases hafter
    exact ⟨hgood, fun _ => rfl, rfl⟩

theorem shows_mprotect {virt size : ℤ} {prot : HostProt} (hgood : Good m c r t h v)
    (hafter : after limits auto fuel m (.mprotect virt size prot) = some (answer, m')) :
    Good m' c r t h v ∧ Shows m.guest (.mprotect virt size prot) answer m'.guest := by
  rw [after, sysMprotect] at hafter
  by_cases hlarge : 2 ^ 32 - 1 < size % 2 ^ 64
  · rw [if_pos hlarge] at hafter
    cases hafter
    exact ⟨hgood, fun _ => rfl, rfl⟩
  rw [if_neg hlarge, protectVirtual] at hafter
  by_cases hvalid : IsValidAddrSize virt size
  · rw [if_neg (not_not_intro hvalid)] at hafter
    cases hmapped : isFullyMapped m.system (virt / 4096) (virt / 4096 + pagesOf size) with
    | false =>
        rw [hmapped] at hafter
        cases hafter
        exact ⟨hgood, fun _ => rfl, rfl⟩
    | true =>
        rw [hmapped] at hafter
        cases hafter
        have hsize := le_pagesOf_mul size
        have hpages : 0 ≤ pagesOf size := by
          have := hvalid.1
          omega
        obtain ⟨hprotects, hview⟩ :=
          protects_protectPages (setProtection prot) (pagesOf size).toNat (virt / 4096) m.system
        refine ⟨⟨(hprotects.sound 0 hgood.sound).congr rfl rfl rfl rfl, ?_, fun hv => ?_⟩, ⟨fun i hi hnone => ?_,
          fun i hi => ?_, fun q hq => ?_⟩, hprotects.brk⟩
        · exact (hprotects.balanced c r t h v hgood.balanced).congr rfl rfl rfl rfl rfl rfl
        · -- the buffer is emptied before the next access
          cases hv
        · exact (isFullyMapped_iff _ _ _).1 hmapped _ (by omega) (by omega) (view_eq_none.1 hnone)
        · exact (hview (virt / 4096 + i)).1 ⟨i, by omega, Agree.refl 0 4 _⟩
        · exact (hview q).2 fun i hi => hq i (by omega)
  · rw [if_pos hvalid] at hafter
    cases hafter
    exact ⟨hgood, fun _ => rfl, rfl⟩

theorem shows_load {p : ℤ} {i : Fin 4096} {need : Need} (hgood : Good m c r t h v)
    (hafter : after limits auto fuel m (.load p i need) = some (answer, m'))
    (horderly : Orderly m (.load p i need) answer m') :
    Good m' c r t h v ∧ Shows m.guest (.load p i need) answer m'.guest := by
  have hplace := horderly.inPlace
  obtain ⟨found, m₁, hfound⟩ : ∃ found m₁, lookupAddress2 m p need = (found, m₁) := ⟨_, _, rfl⟩
  have hload : loadByte m p i need = (found.map fun page => m₁.system.mem page i, m₁) := by
    rw [loadByte, hfound]
    cases found <;> rfl
  rw [after, hload] at hafter
  cases hafter
  have hspec := lookupAddress2_spec need hgood.coherent hgood.sound (by rwa [hfound])
  rw [hfound] at hspec
  obtain ⟨hsame, hfinds, hcases⟩ := hspec
  have hsame' : (findPageTableEntry m p).2 = m₁ := hsame.symm
  refine ⟨⟨hsame' ▸ hfinds.sound, hsame' ▸ hfinds.balanced c r t h v hgood.balanced, hsame' ▸ hfinds.coherent⟩,
    ⟨?_, fun q => hsame' ▸ hfinds.view q⟩, hsame' ▸ hfinds.brk⟩
  rcases hcases with ⟨hnone, hseen⟩ | ⟨e, page, hpage, -, -, hseen⟩
  · have hnone' : found = none := hnone
    rw [Machine.guest, hseen, hnone']
    rfl
  · have hpage' : found = some page := hpage
    rw [Machine.guest, hseen, hpage', hsame']
    rfl

theorem shows_store {p : ℤ} {i : Fin 4096} {b : UInt8} {need : Need} (hgood : Good m c r t h v)
    (hafter : after limits auto fuel m (.store p i b need) = some (answer, m'))
    (horderly : Orderly m (.store p i b need) answer m') :
    Good m' c r t h v ∧ Shows m.guest (.store p i b need) answer m'.guest := by
  have hplace := horderly.inPlace
  obtain ⟨found, m₁, hfound⟩ : ∃ found m₁, lookupAddress2 m p need = (found, m₁) := ⟨_, _, rfl⟩
  cases found with
  | none =>
      have hstore : storeByte m p i b need = (false, m₁) := by rw [storeByte, hfound]
      rw [after, hstore] at hafter
      cases hafter
      have hspec := lookupAddress2_spec need hgood.coherent hgood.sound (by rwa [hfound])
      rw [hfound] at hspec
      obtain ⟨hsame, hfinds, hcases⟩ := hspec
      have hsame' : (findPageTableEntry m p).2 = m₁ := hsame.symm
      refine ⟨⟨hsame' ▸ hfinds.sound, hsame' ▸ hfinds.balanced c r t h v hgood.balanced, hsame' ▸ hfinds.coherent⟩,
        ⟨?_, fun q => hsame' ▸ hfinds.view q⟩, hsame' ▸ hfinds.brk⟩
      rcases hcases with ⟨-, hseen⟩ | ⟨e, page, hpage, -⟩
      · exact hseen
      · cases hpage
  | some page =>
      have hstore : storeByte m p i b need = (true, { m₁ with system := m₁.system.poke page i b }) := by
        rw [storeByte, hfound]
      rw [after, hstore] at hafter
      cases hafter
      have hspec := lookupAddress2_spec need hgood.coherent hgood.sound (by rw [hfound]; exact hplace)
      rw [hfound] at hspec
      obtain ⟨hsame, hfinds, hcases⟩ := hspec
      have hsame' : (findPageTableEntry m p).2 = m₁ := hsame.symm
      rw [hsame'] at hcases
      have hview : ∀ q, m₁.system.view q = m.system.view q := hsame' ▸ hfinds.view
      have hsound : Sound m₁.system 0 := hsame' ▸ hfinds.sound
      have hcoherent : Coherent m₁ := hsame' ▸ hfinds.coherent
      rcases hcases with ⟨hnone, -⟩ | ⟨e, page', hpage, hused, hpte, hseen⟩
      · cases hnone
      · cases hpage
        -- a page of the pool has one owner, so the byte is seen in one page
        have hpoke := view_poke i b hsound hpte hused
        refine ⟨⟨hsound.poke i b hpte hused, ?_, hcoherent.retains (retains_of_pte rfl rfl fun _ => rfl)⟩,
          ⟨?_, fun j hj => ?_, fun q hq => ?_⟩, hsame' ▸ hfinds.brk⟩
        · have hbalanced : Balanced m₁.system c r t h v := hsame' ▸ hfinds.balanced c r t h v hgood.balanced
          exact hbalanced.congr rfl rfl rfl rfl rfl rfl
        · rw [Machine.guest, hseen]
          rfl
        · obtain rfl : j = 0 := by omega
          have hinside : (m₁.system.poke page i b).view p =
              (m.system.view p).map fun x => (x.1, Function.update x.2 i b) := by
            rw [← hview p]
            exact (hpoke p).1 (Agree.refl 0 4 p)
          rw [Nat.cast_zero, add_zero]
          exact hinside
        · have hp := hq 0 (by norm_num)
          rw [Nat.cast_zero, add_zero] at hp
          exact ((hpoke q).2 hp).trans (hview q)

/-- What `mmap` does: it fails, perhaps after tables were given back, or it maps a valid range. -/
theorem sysMmap_cases {s s' : System} {virt size : ℤ} {prot : HostProt} {flags : MapFlags}
    {fildes : Option (Option Descriptor)} {offset : ℤ} {result : Except Errno ℤ}
    (hcall : sysMmap limits auto fuel s virt size prot flags fildes offset = some (result, s')) :
    (∃ err, result = .error err ∧ (s' = s ∨ s' = cleanseMemory s)) ∨
      ∃ src a next place, mapSource prot flags fildes offset = .ok src ∧ result = .ok a ∧ IsValidAddrSize a size ∧
        placeMapping (cleanseMemory s) virt size flags fuel = some (.ok (a, place)) ∧
        s' = { mapRange (cleanseMemory s) (a / 4096) size (prot2Page prot) src with automap := next } := by
  have hreserve (a : ℤ) (src : Source) : reserveVirtual (cleanseMemory s) a size (prot2Page prot) src =
      (.error .einval, cleanseMemory s) ∨ (IsValidAddrSize a size ∧
        reserveVirtual (cleanseMemory s) a size (prot2Page prot) src =
          (.ok a, mapRange (cleanseMemory s) (a / 4096) size (prot2Page prot) src)) := by
    rw [reserveVirtual]
    split
    · rename_i hvalid
      exact .inr ⟨hvalid.1, rfl⟩
    · exact .inl rfl
  rw [sysMmap] at hcall
  -- the address, MAP_GROWSDOWN, the two limits, and what is to be mapped
  split at hcall
  · cases hcall
    exact .inl ⟨_, rfl, .inl rfl⟩
  split at hcall
  · cases hcall
    exact .inl ⟨_, rfl, .inl rfl⟩
  dsimp only at hcall
  split at hcall
  · cases hcall
    exact .inl ⟨_, rfl, .inr rfl⟩
  split at hcall
  · cases hcall
    exact .inl ⟨_, rfl, .inr rfl⟩
  cases hsource : mapSource prot flags fildes offset with
  | error err =>
      rw [hsource] at hcall
      cases hcall
      exact .inl ⟨_, rfl, .inr rfl⟩
  | ok src =>
      rw [hsource] at hcall
      obtain ⟨place, hplace, hresult⟩ := Option.map_eq_some_iff.1 hcall
      cases place with
      | error err =>
          cases hresult
          exact .inl ⟨_, rfl, .inr rfl⟩
      | ok place =>
          obtain ⟨a, next⟩ := place
          rcases hreserve a src with hfail | ⟨hvalid, hmap⟩
          · dsimp only at hresult
            rw [hfail] at hresult
            cases next <;> (cases hresult; exact .inl ⟨_, rfl, .inr rfl⟩)
          · dsimp only at hresult
            rw [hmap] at hresult
            cases next <;> (cases hresult; exact .inr ⟨src, a, _, _, rfl, rfl, hvalid, hplace, rfl⟩)

/-- Giving tables back. -/
theorem good_cleanseMemory (hgood : Good m c r t h v)
    (hmapped : m.system.rss / 2 ≤ m.system.memchurn → ∃ p, m.system.pte p ≠ none) :
    Good { m with system := cleanseMemory m.system } c r t h v ∧
      (∀ q, (cleanseMemory m.system).view q = m.system.view q) ∧
      (cleanseMemory m.system).brk = m.system.brk ∧ (cleanseMemory m.system).capacity = m.system.capacity := by
  by_cases hdue : m.system.rss / 2 ≤ m.system.memchurn
  · obtain ⟨p, hp⟩ := hmapped hdue
    have hgives := gives_cleanseMemory hp
    have hretains := retains_cleanseMemory hp
    exact ⟨⟨hgives.sound 0 hgood.sound, hgives.balanced c r t h v hgood.balanced, hgood.coherent.retains hretains⟩,
      fun q => hgives.view hgood.sound (pte_cleanseMemory hp q), hretains.brk, hgives.capacity⟩
  · have hsame : cleanseMemory m.system = m.system := by rw [cleanseMemory, if_neg hdue]
    rw [hsame]
    exact ⟨hgood, fun _ => rfl, rfl, rfl⟩

/-- A mapping of a range that is dealt with as a whole. -/
theorem good_mapRange {p size : ℤ} {prot : Prot} {src : Source} (hgood : Good m c r t h v) (hsize : 0 < size)
    (hspan : pagesOf size ≤ 2 ^ 36) (hcovers : Covers 512 4 p (p + pagesOf size))
    (hplace : InPlace m.system (mapRange m.system p size prot src)) :
    Good { m with system := mapRange m.system p size prot src } c r t h v ∧
      Replaced m.system.view (mapRange m.system p size prot src).view p (pagesOf size) (fun i =>
        some (prot, src.page (size - 4096 * i) i)) ∧
      (mapRange m.system p size prot src).brk = m.system.brk := by
  have hmaps := maps_mapRange prot src hgood.sound hsize hspan hplace
  have hbalanced := hmaps.balanced c r t h v hgood.balanced
  -- pages that the unmapping left over would be counted twice
  rw [leftover_eq_zero (vacant_removeVirtual hcovers (by omega) m.system), Nat.cast_zero, add_zero] at hbalanced
  have hretains := retains_mapRange m.system p size prot src
  exact ⟨⟨hmaps.sound, hbalanced, hgood.coherent.retains hretains⟩, ⟨hmaps.inside, hmaps.outside⟩, hretains.brk⟩

theorem shows_mmap {virt size : ℤ} {prot : HostProt} {flags : MapFlags} {fildes : Option (Option Descriptor)}
    {offset : ℤ} (hgood : Good m c r t h v)
    (hafter : after limits auto fuel m (.mmap virt size prot flags fildes offset) = some (answer, m'))
    (horderly : Orderly m (.mmap virt size prot flags fildes offset) answer m') :
    Good m' c r t h v ∧ Shows m.guest (.mmap virt size prot flags fildes offset) answer m'.guest := by
  rw [after] at hafter
  obtain ⟨⟨result, s'⟩, hcall, hresult⟩ := Option.map_eq_some_iff.1 hafter
  obtain ⟨hcleansed, hsame, hbrk, hcapacity⟩ := good_cleanseMemory hgood (horderly.mapped trivial)
  rcases sysMmap_cases hcall with ⟨err, rfl, hs'⟩ | ⟨src, a, next, -, hsource, rfl, hvalid, -, hs'⟩
  · cases hresult
    rcases hs' with rfl | rfl
    · exact ⟨hgood, fun _ => rfl, rfl⟩
    · exact ⟨hcleansed, hsame, hbrk⟩
  · cases hresult
    have hplace : InPlace (cleanseMemory m.system)
        (mapRange (cleanseMemory m.system) (a / 4096) size (prot2Page prot) src) := by
      have hin : s'.capacity = m.system.capacity := horderly.inPlace
      rw [hs'] at hin
      exact hin.trans hcapacity.symm
    obtain ⟨hmapped, hreplaced, hbrk'⟩ := good_mapRange hcleansed hvalid.1 (pagesOf_le hvalid)
      (horderly.covers _ _ rfl) hplace
    rw [hs']
    refine ⟨⟨hmapped.sound.congr rfl rfl rfl rfl, ?_, ?_⟩, ⟨src, hsource, hreplaced.inside, fun q hq => ?_⟩,
      hbrk'.trans hbrk⟩
    · exact hmapped.balanced.congr rfl rfl rfl rfl rfl rfl
    · exact hmapped.coherent.retains (retains_of_pte rfl rfl fun _ => rfl)
    · exact (hreplaced.outside q hq).trans (hsame q)

/-- What `brk` does: the break stays, perhaps after tables were given back, or it goes up, or down. -/
theorem sysBrk_cases {s s' : System} {addr b : ℤ} (hcall : sysBrk limits s addr = (b, s')) :
    (b = s.brk ∧ (s' = s ∨ s' = cleanseMemory s)) ∨
      (b = (addr + 4095) / 4096 * 4096 ∧ s.brk < b ∧ IsValidAddrSize s.brk (b - s.brk) ∧
        s' = { mapRange (cleanseMemory s) (s.brk / 4096) (b - s.brk) ⟨true, true, true⟩ .anonymous with brk := b }) ∨
      (b = (addr + 4095) / 4096 * 4096 ∧ b < s.brk ∧ IsValidAddrSize b (s.brk - b) ∧
        s' = { (freeVirtual s b (s.brk - b)).2 with brk := b }) := by
  have hbrk : (cleanseMemory s).brk = s.brk := by
    rw [cleanseMemory]
    split <;> rfl
  rw [sysBrk] at hcall
  dsimp only at hcall
  rw [hbrk] at hcall
  -- below kNullSize, up, down, or where it is
  split at hcall
  · cases hcall
    exact .inl ⟨rfl, .inl rfl⟩
  split at hcall
  · rename_i hup
    split at hcall
    · by_cases hvalid : IsValidAddrSize s.brk ((addr + 4095) / 4096 * 4096 - s.brk)
      · rw [reserveVirtual, if_pos ⟨hvalid, trivial⟩] at hcall
        cases hcall
        exact .inr (.inl ⟨rfl, hup, hvalid, rfl⟩)
      · rw [reserveVirtual, if_neg fun hboth => hvalid hboth.1] at hcall
        cases hcall
        exact .inl ⟨hbrk, .inr rfl⟩
    · cases hcall
      exact .inl ⟨rfl, .inr rfl⟩
  split at hcall
  · rename_i hdown
    by_cases hvalid : IsValidAddrSize ((addr + 4095) / 4096 * 4096) (s.brk - (addr + 4095) / 4096 * 4096)
    · rw [freeVirtual, if_pos hvalid] at hcall
      cases hcall
      refine .inr (.inr ⟨rfl, hdown, hvalid, ?_⟩)
      rw [freeVirtual, if_pos hvalid]
    · rw [freeVirtual, if_neg hvalid] at hcall
      cases hcall
      exact .inl ⟨rfl, .inl rfl⟩
  · cases hcall
    exact .inl ⟨rfl, .inl rfl⟩

theorem good_setBrk {s : System} (hgood : Good { m with system := s } c r t h v) (b : ℤ) :
    Good { m with system := { s with brk := b } } c r t h v := by
  obtain ⟨hsound, hbalanced, hcoherent⟩ := hgood
  exact ⟨hsound.congr rfl rfl rfl rfl, hbalanced.congr rfl rfl rfl rfl rfl rfl, hcoherent⟩

section Break

variable {g : Guest} {v' : View} {addr a : ℤ}

theorem showsPages_brk_stays (hpages : ∀ q, v' q = g.pages q) : ShowsPages g (.brk addr) (.address g.brk) v' := by
  rw [ShowsPages, if_pos rfl]
  exact hpages

theorem showsPages_brk_up (ha : a = (addr + 4095) / 4096 * 4096) (hup : g.brk < a)
    (hpages : Replaced g.pages v' (g.brk / 4096) (pagesOf (a - g.brk)) fun _ =>
      some (⟨true, true, true⟩, fun _ => 0)) : ShowsPages g (.brk addr) (.address a) v' := by
  rw [ShowsPages, if_neg hup.ne']
  refine ⟨ha, ?_⟩
  rwa [if_pos hup]

theorem showsPages_brk_down (ha : a = (addr + 4095) / 4096 * 4096) (hdown : a < g.brk)
    (hpages : Replaced g.pages v' (a / 4096) (pagesOf (g.brk - a)) fun _ => none) :
    ShowsPages g (.brk addr) (.address a) v' := by
  rw [ShowsPages, if_neg hdown.ne]
  refine ⟨ha, ?_⟩
  rwa [if_neg hdown.not_gt]

end Break

theorem shows_brk {addr : ℤ} (hgood : Good m c r t h v)
    (hafter : after limits auto fuel m (.brk addr) = some (answer, m'))
    (horderly : Orderly m (.brk addr) answer m') :
    Good m' c r t h v ∧ Shows m.guest (.brk addr) answer m'.guest := by
  obtain ⟨b, s', hcall⟩ : ∃ b s', sysBrk limits m.system addr = (b, s') := ⟨_, _, rfl⟩
  rw [after, hcall] at hafter
  cases hafter
  obtain ⟨hcleansed, hsame, hbrk, hcapacity⟩ := good_cleanseMemory hgood (horderly.mapped trivial)
  rcases sysBrk_cases hcall with ⟨rfl, hs'⟩ | ⟨hb, hup, hvalid, hs'⟩ | ⟨hb, hdown, hvalid, hs'⟩
  · rcases hs' with rfl | rfl
    · exact ⟨hgood, showsPages_brk_stays (g := m.guest) fun _ => rfl, rfl⟩
    · exact ⟨hcleansed, showsPages_brk_stays (g := m.guest) hsame, hbrk⟩
  · have hrange : rangeOf m.guest (.brk addr) (.address b) = some (m.system.brk / 4096, pagesOf (b - m.system.brk)) :=
      if_pos hup
    have hplace : InPlace (cleanseMemory m.system) (mapRange (cleanseMemory m.system) (m.system.brk / 4096)
        (b - m.system.brk) ⟨true, true, true⟩ .anonymous) := by
      have hin : s'.capacity = m.system.capacity := horderly.inPlace
      rw [hs'] at hin
      exact hin.trans hcapacity.symm
    obtain ⟨hmapped, hreplaced, -⟩ := good_mapRange hcleansed hvalid.1 (pagesOf_le hvalid)
      (horderly.covers _ _ hrange) hplace
    rw [hs']
    exact ⟨good_setBrk hmapped b, showsPages_brk_up (g := m.guest) hb hup
      ⟨hreplaced.inside, fun q hq => (hreplaced.outside q hq).trans (hsame q)⟩, rfl⟩
  · have hrange : rangeOf m.guest (.brk addr) (.address b) = some (b / 4096, pagesOf (m.system.brk - b)) :=
      if_neg hdown.not_gt
    obtain ⟨s₁, hfree, hfreed, hreplaced, -⟩ := good_freeVirtual hgood hvalid (horderly.covers _ _ hrange)
    rw [hs', hfree]
    exact ⟨good_setBrk hfreed b, showsPages_brk_down (g := m.guest) hb hdown hreplaced, rfl⟩

/-- **A call does what it shows.** -/
theorem shows_after {call : Call} (hgood : Good m c r t h v)
    (hafter : after limits auto fuel m call = some (answer, m')) (horderly : Orderly m call answer m') :
    Good m' c r t h v ∧ Shows m.guest call answer m'.guest := by
  cases call with
  | mmap virt size prot flags fildes offset => exact shows_mmap hgood hafter horderly
  | munmap virt size => exact shows_munmap hgood hafter horderly
  | mprotect virt size prot => exact shows_mprotect hgood hafter
  | brk addr => exact shows_brk hgood hafter horderly
  | load p i need => exact shows_load hgood hafter horderly
  | store p i b need => exact shows_store hgood hafter horderly

/-! ### Ranges that are not dealt with as a whole -/

/-- `munmap` succeeds, leaves nothing of its range mapped, and leaves the other pages as they are. -/
structure Unmapped (s : System) (r : Except Errno Unit × System) (p e : ℤ) : Prop where
  done : r.1 = .ok ()
  vacant : Vacant r.2 p e
  others : ∀ q, (∀ x, p ≤ x → x < e → ¬ Same x q) → r.2.pte q = s.pte q

/-- **The ranges for which `munmap` does its work whatever is mapped.** -/
theorem sysMunmap_unmapped_iff {virt size : ℤ} (hvalid : IsValidAddrSize virt size) :
    (∀ s, Unmapped s (sysMunmap s virt size) (virt / 4096) (virt / 4096 + pagesOf size)) ↔
      Covers 512 4 (virt / 4096) (virt / 4096 + pagesOf size) := by
  have hspan := pagesOf_le hvalid
  have hcall (s : System) : ∃ s', sysMunmap s virt size = (.ok (), s') ∧ ∀ q, s'.pte q =
      (removeVirtual s (virt / 4096) (virt / 4096) (virt / 4096 + pagesOf size)).pte q := by
    rw [sysMunmap, freeVirtual, if_pos hvalid]
    exact ⟨_, rfl, fun _ => rfl⟩
  rw [← removeVirtual_clears_iff (by omega)]
  constructor
  · intro h s q h₁ h₂
    obtain ⟨s', hs', hpte⟩ := hcall s
    have hvacant := (h s).vacant q h₁ h₂
    rw [hs'] at hvacant
    rw [← hpte, hvacant]
  · intro h s
    obtain ⟨s', hs', hpte⟩ := hcall s
    rw [hs']
    exact ⟨rfl, fun q h₁ h₂ => (hpte q).trans (h s q h₁ h₂),
      fun q hq => (hpte q).trans (pte_removeVirtual_of_outside (Run.start s _) hq)⟩

/-- Two pages on both sides of the end of a table: the second one can stay mapped. -/
theorem not_unmapped_across :
    ¬ ∀ s, Unmapped s (sysMunmap s 0x1ff000 8192) (0x1ff000 / 4096) (0x1ff000 / 4096 + pagesOf 8192) :=
  fun h => absurd ((sysMunmap_unmapped_iff (by decide)).1 h) (by decide)

theorem vacant_of_cleanseMemory {s : System} {p e : ℤ} (h : Vacant (cleanseMemory s) p e) : Vacant s p e := by
  intro q h₁ h₂
  by_contra hq
  exact hq ((pte_cleanseMemory hq q).symm.trans (h q h₁ h₂))

/-- `MAP_ANONYMOUS | MAP_PRIVATE | MAP_FIXED_NOREPLACE` -/
def noreplace : MapFlags := ⟨false, false, true, true, false, true⟩

/-- A mapping of memory next to a single page, which the check doesn't see. -/
theorem sysMmap_onlyPage {virt size q : ℤ} (hvalid : IsValidAddrSize virt size) (auto : AutoMap) (prot : HostProt)
    (hfree : isFullyUnmapped (onlyPage q) (virt / 4096) (virt / 4096 + pagesOf size) = true) :
    ∃ s', sysMmap ⟨size / 4096 + 1, 5⟩ auto 0 (onlyPage q) virt size prot noreplace none 0 = some (.ok virt, s') := by
  obtain ⟨hrss, hchurn, hvss⟩ : (onlyPage q).rss = 4 ∧ (onlyPage q).memchurn = 0 ∧ (onlyPage q).vss = 1 :=
    ⟨rfl, rfl, rfl⟩
  have hclean : cleanseMemory (onlyPage q) = onlyPage q := by
    rw [cleanseMemory]
    exact if_neg (by omega)
  have hplace : placeMapping (onlyPage q) virt size noreplace 0 = some (.ok (virt, none)) := by
    rw [placeMapping, hfree]
    rfl
  have hsource : mapSource prot noreplace none 0 = .ok .anonymous := rfl
  have hreserve : reserveVirtual (onlyPage q) virt size (prot2Page prot) .anonymous =
      (.ok virt, mapRange (onlyPage q) (virt / 4096) size (prot2Page prot) .anonymous) := by
    rw [reserveVirtual, if_pos ⟨hvalid, trivial⟩]
  rw [sysMmap, if_neg (not_not_intro hvalid), if_neg (by decide), hclean]
  dsimp only
  rw [if_neg (by omega), if_neg (by omega), hsource]
  dsimp only
  rw [hplace, Option.map_some]
  dsimp only
  rw [hreserve]
  exact ⟨_, rfl⟩

/-- **The ranges for which `MAP_FIXED_NOREPLACE` replaces nothing.** -/
theorem sysMmap_noreplace_iff {virt size : ℤ} (hvalid : IsValidAddrSize virt size) :
    (∀ limits auto fuel s prot flags fildes offset a s', flags.fixed = false → flags.fixedNoreplace = true →
      sysMmap limits auto fuel s virt size prot flags fildes offset = some (.ok a, s') →
      Vacant s (virt / 4096) (virt / 4096 + pagesOf size)) ↔
      Covers 512 4 (virt / 4096) (virt / 4096 + pagesOf size) := by
  have hspan := pagesOf_le hvalid
  constructor
  · intro h
    by_contra hnot
    obtain ⟨q, hpq, hqe, hfree⟩ := exists_unseen (by omega) hnot
    obtain ⟨s', hs'⟩ := sysMmap_onlyPage hvalid ⟨0, 0⟩ ⟨true, true, false⟩ hfree
    have hgone := h _ _ _ _ _ _ _ _ _ _ rfl rfl hs' q hpq hqe
    rw [pte_onlyPage_self] at hgone
    cases hgone
  · intro hcovers limits auto fuel s prot flags fildes offset a s' hfixed hnoreplace hcall
    rcases sysMmap_cases hcall with ⟨err, herr, -⟩ | ⟨src, a', next, place, -, -, -, hplace, -⟩
    · cases herr
    · rw [placeMapping, hfixed, hnoreplace] at hplace
      refine vacant_of_cleanseMemory (vacant_of_isFullyUnmapped (noneSkipped_of_covers hcovers _) ?_)
      cases hfree : isFullyUnmapped (cleanseMemory s) (virt / 4096) (virt / 4096 + pagesOf size) with
      | true => rfl
      | false =>
          rw [hfree] at hplace
          cases hplace

/-- Two pages on both sides of the end of a table: a mapping can replace the second one. -/
theorem not_noreplace_across :
    ¬ ∀ limits auto fuel s prot flags fildes offset a s', flags.fixed = false → flags.fixedNoreplace = true →
      sysMmap limits auto fuel s 0x1ff000 8192 prot flags fildes offset = some (.ok a, s') →
      Vacant s (0x1ff000 / 4096) (0x1ff000 / 4096 + pagesOf 8192) :=
  fun h => absurd ((sysMmap_noreplace_iff (by decide)).1 h) (by decide)

/-! ### Runs -/

/-- A step of a run: a call that is orderly, with its answer. -/
def Step (limits : Limits) (auto : AutoMap) (fuel : ℕ) (m : Machine) (call : Call × Answer) (m' : Machine) : Prop :=
  after limits auto fuel m call.1 = some (call.2, m') ∧ Orderly m call.1 call.2 m'

/-- **A run of orderly calls is a run of the memory that the program sees.**  Each page has one owner throughout, and
the numbers that are kept stay ahead of the tables by what they were at the start. -/
theorem shown_run {tr : List ((Call × Answer) × Machine)} (hgood : Good m c r t h v)
    (hrun : IsRun (Step limits auto fuel) m tr) :
    Throughout (fun m => Good m c r t h v) m tr ∧
      IsRun (fun g call g' => Shows g call.1 call.2 g') m.guest (tr.map fun x => (x.1, x.2.guest)) := by
  -- on the run; what holds between the calls carries it
  induction tr generalizing m with
  | nil => exact ⟨hgood, trivial⟩
  | cons x tr ih =>
      obtain ⟨⟨hafter, horderly⟩, hrest⟩ := hrun
      obtain ⟨hgood', hshows⟩ := shows_after hgood hafter horderly
      obtain ⟨hthroughout, hshown⟩ := ih hgood' hrest
      exact ⟨⟨hgood, hthroughout⟩, hshows, hshown⟩

/-! ### A run -/

/-- The sum over the tables with one page. -/
theorem total_onlyPage {M : Type} [AddCancelCommMonoid M] (w : ℕ → M) (u : Pte → M) (p : ℤ) :
    total w u 4 (onlyPage p).cr3 = w 0 + (w 1 + (w 2 + w 3)) + u ⟨⟨true, true, true⟩, .demand⟩ := by
  have hstop : RadixTables.stop 4 (graft 3 [1, 2, 3] (bare 3 0 : Table 512 ℕ Pte 4) p) p = 0 := by
    rw [stop_graft, RadixTables.stop, walk_bare]
    rfl
  have hlookup : lookup 4 (graft 3 [1, 2, 3] (bare 3 0 : Table 512 ℕ Pte 4) p) p = none := by
    rw [lookup_graft, lookup, walk_bare]
  have hbare : RadixTables.stop 4 (bare 3 0 : Table 512 ℕ Pte 4) p = 3 := by rw [RadixTables.stop, walk_bare]
  have hstore := total_store (w := w) (u := u) (a := some ⟨⟨true, true, true⟩, .demand⟩) hstop
  have hgraft := total_graft (w := w) (u := u) 3 [1, 2, 3] (bare 3 0 : Table 512 ℕ Pte 4) p (by rw [hbare]; decide)
  rw [hlookup, weight_none, add_zero, weight_some, hgraft, total_bare] at hstore
  refine hstore.trans ?_
  rw [List.map_cons, List.map_cons, List.map_cons, List.map_nil, List.sum_cons, List.sum_cons, List.sum_cons,
    List.sum_nil, add_zero]

/-- A machine with one page. -/
def onlyMachine (p : ℤ) : Machine where
  system := onlyPage p
  tlb _ := none

theorem good_onlyMachine (p : ℤ) : Good (onlyMachine p) 0 0 0 0 0 := by
  have htables : (onlyPage p).tablePages = {0, 1, 2, 3} := total_onlyPage _ _ p
  have hguest : (onlyPage p).guestPages = 0 := total_onlyPage _ _ p
  have hcommitted : (onlyPage p).count committedOf = 0 := total_onlyPage (fun _ => (0 : ℤ)) committedOf p
  have hreserved : (onlyPage p).count reservedOf = 1 := total_onlyPage (fun _ => (0 : ℤ)) reservedOf p
  have hnumber : (onlyPage p).tableCount = 4 := total_onlyPage (fun _ => (1 : ℤ)) (fun _ => 0) p
  have hmapped : (onlyPage p).count (fun _ => 1) = 1 := total_onlyPage (fun _ => (0 : ℤ)) (fun _ => 1) p
  have hheld : (onlyPage p).held + 0 = {0, 1, 2, 3} := by
    rw [System.held, htables, hguest]
    rfl
  refine ⟨⟨?_, ?_, ?_, fun _ _ => rfl, fun _ _ => rfl⟩, ⟨?_, ?_, ?_, rfl, ?_⟩, fun _ i c hc => ?_⟩
  · change ((onlyPage p).held + 0).Nodup
    rw [hheld]
    decide
  · change ∀ f ∈ (onlyPage p).held + 0, f < 4
    rw [hheld]
    decide
  · intro f hf
    exact absurd hf List.not_mem_nil
  · change (0 : ℤ) = (onlyPage p).count committedOf + 0
    rw [hcommitted, add_zero]
  · change (1 : ℤ) = (onlyPage p).count reservedOf + 0
    rw [hreserved, add_zero]
  · change (4 : ℤ) = (onlyPage p).tableCount + 0
    rw [hnumber, add_zero]
  · change (1 : ℤ) = (onlyPage p).count (fun _ => 1) + 0
    rw [hmapped, add_zero]
  · cases hc

/-- A page is used, and unmapped. -/
def useThenUnmap (p : ℤ) : List ((Call × Answer) × Machine) :=
  let used := loadByte (onlyMachine p) p 0 ⟨true, false⟩
  [((.load p 0 ⟨true, false⟩, used.1.elim .fault .byte), used.2),
    ((.munmap (p * 4096) 4096, .done), { used.2 with system := (sysMunmap used.2.system (p * 4096) 4096).2 })]

theorem capacity_sysMunmap (s : System) (virt size : ℤ) : (sysMunmap s virt size).2.capacity = s.capacity := by
  rw [sysMunmap, freeVirtual]
  split
  · exact (gives_removeVirtual _ (Run.start s _)).capacity
  · rfl

theorem inPlace_loadByte {p : ℤ} (hp : Canonical p) (i : Fin 4096) (need : Need) :
    InPlace (onlyPage p) (loadByte (onlyMachine p) p i need).2.system := by
  have hload : (loadByte (onlyMachine p) p i need).2 = (findPageTableEntry (onlyMachine p) p).2 := by
    rw [← lookupAddress2_snd (onlyMachine p) p need, loadByte]
    obtain ⟨found, m'⟩ := lookupAddress2 (onlyMachine p) p need
    cases found <;> rfl
  have hpte : (onlyMachine p).system.pte p = some ⟨⟨true, true, true⟩, .demand⟩ := pte_onlyPage_self p
  have hfind : findPageTableEntry (onlyMachine p) p = walkTables (onlyMachine p) p := rfl
  have hgrow : growTo 68 2048 = 2048 := by rw [growTo, if_neg (by decide)]
  have hcapacity : (allocateAnonymousPage (onlyPage p)).2.capacity = 2048 := hgrow
  rw [hload, hfind, walkTables, if_pos hp, hpte]
  change (handlePageFault (onlyPage p) p ⟨⟨true, true, true⟩, .demand⟩).2.capacity = 2048
  rw [handlePageFault]
  dsimp only
  split
  · exact hcapacity
  · exact hcapacity

theorem isRun_useThenUnmap : IsRun (Step ⟨16, 16⟩ ⟨0, 0⟩ 0) (onlyMachine 5) (useThenUnmap 5) := by
  refine ⟨⟨rfl, inPlace_loadByte (by decide) _ _, fun h => h.elim, fun _ _ h => ?_⟩,
    ⟨?_, capacity_sysMunmap _ _ _, fun h => h.elim, fun _ _ h => ?_⟩, trivial⟩
  · cases h
  · rw [after, sysMunmap, freeVirtual, if_pos (by decide)]
  · cases h
    decide

/-- A page that is used and then unmapped. -/
theorem shown_useThenUnmap :
    Throughout (fun m => Good m 0 0 0 0 0) (onlyMachine 5) (useThenUnmap 5) ∧
      IsRun (fun g call g' => Shows g call.1 call.2 g') (onlyMachine 5).guest
        ((useThenUnmap 5).map fun x => (x.1, x.2.guest)) :=
  shown_run (good_onlyMachine 5) isRun_useThenUnmap

end AddressSpace
