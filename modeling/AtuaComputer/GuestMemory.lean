/-
**The guest's memory.**

An access looks its page up in the translation buffer and then in the tables.  A page that is used for the first time
is given a page of the pool, which holds zeros.  The buffer is emptied before the next access when a page that was in
use has been freed, or the protection of a page changed.

Main definitions:

* `AddressSpace.Retains` — what is in use is not lost without notice;
* `AddressSpace.Coherent` — the translation buffer knows what the tables know;
* `AddressSpace.loadByte`, `AddressSpace.storeByte` — reading and writing a byte;
* `AddressSpace.seen` — what an access may see of a page.

Main results:

* `AddressSpace.faults_handlePageFault` — **the first use of a page**;
* `AddressSpace.finds_findPageTableEntry` — **an access finds the page that the tables have, and changes nothing that
  can be seen**, if the pool stays in place;
* `AddressSpace.view_poke` — **a write changes the bytes of its page, and of no other**.
-/

import AtuaComputer.MappedPages

set_option relaxedAutoImplicit false
set_option autoImplicit false

namespace AddressSpace

open RadixTables

/-! ### The translation buffer -/

/-- What is in use is not lost without notice: unless the translation buffer is to be emptied, the entries of the
pages that were in use are as before.  The break stays where it is. -/
structure Retains (s s' : System) : Prop where
  brk : s'.brk = s.brk
  before : s'.invalidated = false → s.invalidated = false
  entries : s'.invalidated = false → ∀ p e, s.pte p = some e → e.page ≠ none → s'.pte p = some e

theorem Retains.refl (s : System) : Retains s s := ⟨rfl, id, fun _ _ _ h _ => h⟩

theorem Retains.trans {s₁ s₂ s₃ : System} (h : Retains s₁ s₂) (h' : Retains s₂ s₃) : Retains s₁ s₃ where
  brk := h'.brk.trans h.brk
  before hv := h.before (h'.before hv)
  entries hv _ _ hp he := h'.entries hv _ _ (h.entries (h'.before hv) _ _ hp he) he

/-- Where all entries are as before. -/
theorem retains_of_pte {s s' : System} (hbrk : s'.brk = s.brk) (hv : s'.invalidated = s.invalidated)
    (h : ∀ q, s'.pte q = s.pte q) : Retains s s' :=
  ⟨hbrk, fun hf => hv ▸ hf, fun _ p _ hp _ => (h p).trans hp⟩

/-- Freeing a page in use is noticed. -/
theorem invalidated_freePage {e : Pte} {s : System} (h : (freePage e s).invalidated = false) :
    s.invalidated = false ∧ e.page = none := by
  obtain ⟨prot, backing⟩ := e
  cases backing with
  | demand => exact ⟨h, rfl⟩
  | host page => cases h
  | mug page rsrv =>
      cases rsrv with
      | true => exact ⟨h, rfl⟩
      | false => cases h

@[simp] theorem brk_freePage (e : Pte) (s : System) : (freePage e s).brk = s.brk := by
  rw [freePage]
  split <;> rfl

theorem retains_removePage (s : System) (p : ℤ) : Retains s (removePage s p) := by
  cases h : s.pte p with
  | none =>
      rw [removePage_none s h]
      exact Retains.refl s
  | some e =>
      have hinv (hv : (removePage s p).invalidated = false) : s.invalidated = false ∧ e.page = none := by
        rw [removePage_some s h] at hv
        exact invalidated_freePage (s := s.storePte p none) hv
      have hbrk : (removePage s p).brk = s.brk := by
        rw [removePage_some s h]
        exact brk_freePage e (s.storePte p none)
      refine ⟨hbrk, fun hv => (hinv hv).1, fun hv q e' hq he' => ?_⟩
      by_cases hsame : Same p q
      · rw [pte_congr s hsame, h] at hq
        cases hq
        exact absurd (hinv hv).2 he'
      · rw [pte_removePage_of_not_same s hsame, hq]

theorem retains_freeLeaf {s : System} {p : ℤ} (h : LeafEmpty 3 s.cr3 p) : Retains s (freeLeaf s p) := by
  refine retains_of_pte ?_ ?_ (cr3_freeLeaf s h)
  · rw [freeLeaf]
    cases leaf 3 s.cr3 p <;> rfl
  · rw [freeLeaf]
    cases leaf 3 s.cr3 p <;> rfl

theorem retains_removeStep {s : System} {run p : ℤ} (e : ℤ) (h : Run s run p) :
    Retains s (removeStep s run p e) := by
  rw [removeStep]
  split
  · exact retains_removePage s p
  · split
    · rename_i hfull
      exact (retains_removePage s p).trans (retains_freeLeaf (h.leafEmpty hfull.1 hfull.2))
    · exact retains_removePage s p

/-- **Unmapping a page in use is noticed.** -/
theorem retains_removeVirtual {s : System} {run p : ℤ} (e : ℤ) (h : Run s run p) :
    Retains s (removeVirtual s run p e) := by
  obtain ⟨d, hd⟩ : ∃ d, d = (e - p).toNat := ⟨_, rfl⟩
  induction d using Nat.strong_induction_on generalizing s run p with
  | _ d ih =>
      by_cases hlt : p < e
      · by_cases hstop : s.stop p = 0
        · rw [removeVirtual_page hlt hstop]
          exact (retains_removeStep e h).trans (ih _ (by omega) (h.step e) rfl)
        · have hpos := s.stride_pos p
          rw [removeVirtual_jump hlt hstop]
          exact ih _ (by omega) (Run.start s _) rfl
      · rw [removeVirtual_of_le (by omega)]
        exact Retains.refl s

theorem retains_cleanseMemory {s : System} {p : ℤ} (h : s.pte p ≠ none) : Retains s (cleanseMemory s) := by
  refine retains_of_pte ?_ ?_ (pte_cleanseMemory h)
  · rw [cleanseMemory]
    split <;> rfl
  · rw [cleanseMemory]
    split <;> rfl

/-- Taking a page leaves the break and the order to empty the buffer alone. -/
theorem retains_allocateAnonymousPage (s : System) : Retains s (allocateAnonymousPage s).2 := by
  rw [allocateAnonymousPage]
  split <;> exact retains_of_pte rfl rfl fun _ => rfl

theorem retains_allocatePageTables (k : ℕ) (s : System) : Retains s (allocatePageTables k s).2 := by
  induction k generalizing s with
  | zero => exact Retains.refl s
  | succ k ih =>
      have htable : Retains s (allocatePageTable s).2 :=
        (retains_allocateAnonymousPage s).trans (retains_of_pte rfl rfl fun _ => rfl)
      exact htable.trans (ih (allocatePageTable s).2)

theorem retains_openSlot (s : System) (p : ℤ) : Retains s (openSlot s p).2 := by
  obtain ⟨hbrk, hbefore, hentries⟩ := retains_allocatePageTables (s.stop p) s
  refine ⟨hbrk, hbefore, fun _ q e hq _ => ?_⟩
  rw [pte_openSlot, hq]

theorem retains_replacePte {s : System} {p : ℤ} (e : Pte) : Retains s (replacePte s p e) := by
  cases h : s.pte p with
  | none =>
      rw [replacePte_of_none h]
      refine ⟨rfl, id, fun _ q e' hq _ => ?_⟩
      rw [pte_storePte_of_not_same s fun hsame => ?_, hq]
      rw [pte_congr s hsame, h] at hq
      cases hq
  | some old =>
      have hinv (hv : (replacePte s p e).invalidated = false) : s.invalidated = false ∧ old.page = none := by
        rw [replacePte_of_some h] at hv
        exact invalidated_freePage (s := s.storePte p (some e)) hv
      have hbrk : (replacePte s p e).brk = s.brk := by
        rw [replacePte_of_some h]
        exact brk_freePage old (s.storePte p (some e))
      refine ⟨hbrk, fun hv => (hinv hv).1, fun hv q e' hq he' => ?_⟩
      by_cases hsame : Same p q
      · rw [pte_congr s hsame, h] at hq
        cases hq
        exact absurd (hinv hv).2 he'
      · rw [pte_replacePte_of_not_same hsame, hq]

theorem retains_newEntry (prot : Prot) (src : Source) (room : ℤ) (n : ℕ) (s : System) :
    Retains s (newEntry prot src room n s).2 := by
  refine retains_of_pte ?_ ?_ fun q => by rw [System.pte, (frame_newEntry prot src room n s).1, System.pte]
  · cases src <;> rfl
  · cases src <;> rfl

theorem frame_freeOld (old : Option Pte) (s : System) :
    ((old.map fun e => freePage e s).getD s).brk = s.brk ∧
      (((old.map fun e => freePage e s).getD s).invalidated = false → s.invalidated = false) := by
  cases old with
  | none => exact ⟨rfl, id⟩
  | some e => exact ⟨brk_freePage e s, fun h => (invalidated_freePage h).1⟩

theorem retains_reservePage (prot : Prot) (src : Source) (room p : ℤ) (n : ℕ) (slot : Slot) (s : System) :
    Retains s (reservePage prot src room n slot p s).2 := by
  -- a slot that isn't linked leaves the tables alone, and frees what it found there
  by_cases h : (reservePage prot src room n slot p s).1 = .linked
  · obtain ⟨rfl, hplace⟩ := (reservePage_linked_iff room p n slot s).1 h
    rw [InPlace, capacity_reservePage] at hplace
    rw [reservePage_linked hplace]
    exact (retains_newEntry prot src room n s).trans (retains_replacePte _)
  · have hnew := retains_newEntry prot src room n s
    refine ⟨?_, fun hv => ?_, fun _ q e hq _ => ?_⟩
    · rw [reservePage]
      refine ((frame_freeOld _ _).1.trans ?_).trans hnew.brk
      split <;> split <;> rfl
    · rw [reservePage] at hv
      have hbefore := (frame_freeOld _ _).2 hv
      refine hnew.before ?_
      split at hbefore
      · split at hbefore <;> exact hbefore
      · split at hbefore <;> exact hbefore
    · rw [pte_reservePage, if_neg h, hq]

theorem retains_reservePages (prot : Prot) (src : Source) (first size : ℤ) (n : ℕ) (st : Slot × System) :
    Retains st.2 (reservePages prot src first size n st).2 := by
  induction n with
  | zero => exact Retains.refl _
  | succ n ih =>
      refine ih.trans ?_
      rw [reservePages, reserveStep_eq]
      refine Retains.trans ?_ (retains_reservePage _ _ _ _ _ _ _)
      rw [opened]
      split
      · exact retains_openSlot _ _
      · exact Retains.refl _

/-- **Mapping over a page in use is noticed.** -/
theorem retains_mapRange (s : System) (p size : ℤ) (prot : Prot) (src : Source) :
    Retains s (mapRange s p size prot src) := by
  -- the numbers are raised between the unmapping and the loop
  obtain ⟨s₁, hs₁⟩ : ∃ s₁, s₁ = removeVirtual s p p (p + pagesOf size) := ⟨_, rfl⟩
  have hremove := retains_removeVirtual (p + pagesOf size) (Run.start s p)
  have hcount : Retains s₁ { s₁ with
      vss := s₁.vss + pagesOf size, reserved := s₁.reserved + pagesOf size } := retains_of_pte rfl rfl fun _ => rfl
  rw [← hs₁] at hremove
  rw [mapRange, ← hs₁]
  exact (hremove.trans hcount).trans (retains_reservePages prot src p size _ (.linked, _))

/-! ### The first use of a page -/

/-- An entry is exchanged for one with the same page. -/
theorem Sound.exchange {s : System} {p : ℤ} {e : Pte} {x : Multiset ℕ} (e' : Pte) (hp : s.pte p = some e)
    (howned : owned e' = owned e) (h : Sound s x) : Sound (s.storePte p (some e')) x := by
  have hguest : (s.storePte p (some e')).guestPages = s.guestPages := by
    have := guestPages_storePte s (some e') (stop_of_pte s hp)
    rwa [hp, weight_some, weight_some, howned, add_left_inj] at this
  have hheld : (s.storePte p (some e')).held = s.held := by
    rw [System.held, hguest, tablePages_storePte, System.held]
    rfl
  exact ⟨hheld ▸ h.nodup, fun f hf => h.lt f (hheld ▸ hf), h.free_zero,
    fun f hf => h.table_zero f (tablePages_storePte s (some e') ▸ hf), h.fresh_zero⟩

/-- What the first use of a page does, if the pool stays in place. -/
structure Faults (s s' : System) (p : ℤ) (e : Pte) : Prop where
  pte : s'.pte p = some e
  page : e.page ≠ none
  view : ∀ q, s'.view q = s.view q
  sound : Sound s' 0
  balanced : ∀ c r t h v, Balanced s c r t h v → Balanced s' c r t h v
  retains : Retains s s'

/-- A page that is in use. -/
theorem Faults.refl {s : System} {p : ℤ} {e : Pte} (hsound : Sound s 0) (hp : s.pte p = some e)
    (hpage : e.page ≠ none) : Faults s s p e :=
  ⟨hp, hpage, fun _ => rfl, hsound, fun _ _ _ _ _ hb => hb, Retains.refl s⟩

theorem committedOf_eq (e : Pte) : committedOf e = if e.page = none then 0 else 1 := by
  obtain ⟨prot, backing⟩ := e
  cases backing with
  | demand => rfl
  | host page => rfl
  | mug page rsrv => cases rsrv <;> rfl

/-- An entry that is reserved becomes one that is committed. -/
theorem Balanced.commit {s s' : System} {p : ℤ} {e e' : Pte} {c r t h v : ℤ} (hb : Balanced s c r t h v)
    (hp : s.pte p = some e) (hunused : e.page = none) (hused : e'.page ≠ none)
    (hcr3 : s'.cr3 = (s.storePte p (some e')).cr3) (hcommitted : s'.committed = s.committed + 1)
    (hreserved : s'.reserved = s.reserved - 1) (htables : s'.tables = s.tables) (hrss : s'.rss = s.rss + 1)
    (hvss : s'.vss = s.vss) : Balanced s' c r t h v := by
  obtain ⟨b₁, b₂, b₃, b₄, b₅⟩ := hb
  have hcount (f : Pte → ℤ) : s'.count f + f e = s.count f + f e' := by
    have hstore := count_storePte s f (some e') (stop_of_pte s hp)
    rw [hp, weight_some, weight_some] at hstore
    rw [System.count, hcr3]
    exact hstore
  have hnumber : s'.tableCount = s.tableCount := by
    rw [System.tableCount, hcr3]
    exact tableCount_storePte s (some e')
  have he : committedOf e = 0 := (committedOf_eq e).trans (if_pos hunused)
  have he' : committedOf e' = 1 := (committedOf_eq e').trans (if_neg hused)
  have hc := hcount committedOf
  have hr := hcount reservedOf
  have hv := hcount fun _ => 1
  rw [reservedOf, reservedOf] at hr
  refine ⟨?_, ?_, ?_, ?_, ?_⟩ <;> omega

/-- The entry of a page that isn't in use is exchanged for one of a page that is. -/
theorem faults_commit {s s' : System} {p : ℤ} {e e' : Pte} (hp : s.pte p = some e) (hunused : e.page = none)
    (hused : e'.page ≠ none) (hprot : e'.prot = e.prot) (hdata : e'.backing.data s'.mem = e.backing.data s.mem)
    (hsound : Sound s' 0) (hcr3 : s'.cr3 = (s.storePte p (some e')).cr3) (hmem : s'.mem = s.mem)
    (hcommitted : s'.committed = s.committed + 1) (hreserved : s'.reserved = s.reserved - 1)
    (htables : s'.tables = s.tables) (hrss : s'.rss = s.rss + 1) (hvss : s'.vss = s.vss) (hbrk : s'.brk = s.brk)
    (hinvalidated : s'.invalidated = s.invalidated) : Faults s s' p e' := by
  have hself (q : ℤ) (hq : Same p q) : s'.pte q = some e' := by
    rw [System.pte, hcr3]
    exact pte_storePte_self s (stop_of_pte s hp) hq
  have hothers (q : ℤ) (hq : ¬ Same p q) : s'.pte q = s.pte q := by
    rw [System.pte, hcr3]
    exact pte_storePte_of_not_same s hq
  refine ⟨hself p (Agree.refl 0 4 p), hused, fun q => ?_, hsound, fun c r t h v hb => ?_, hbrk,
    fun hf => hinvalidated ▸ hf, fun _ q x hq hx => ?_⟩
  · by_cases hq : Same p q
    · rw [view_of_pte (hself q hq), view_of_pte ((pte_congr s hq).trans hp), hprot, hdata]
    · rw [System.view, System.view, hothers q hq, hmem]
  · exact hb.commit hp hunused hused hcr3 hcommitted hreserved htables hrss hvss
  · by_cases hsame : Same p q
    · rw [pte_congr s hsame, hp] at hq
      cases hq
      exact absurd hunused hx
    · rw [hothers q hsame, hq]

theorem faults_mug {s : System} {p : ℤ} {prot : Prot} {page : ℕ} (hsound : Sound s 0)
    (hp : s.pte p = some ⟨prot, .mug page true⟩) :
    Faults s (handlePageFault s p ⟨prot, .mug page true⟩).2 p ⟨prot, .mug page false⟩ := by
  have hexchanged := hsound.exchange ⟨prot, .mug page false⟩ hp rfl
  exact faults_commit hp rfl (Option.some_ne_none page) rfl rfl (hexchanged.congr rfl rfl rfl rfl) rfl rfl rfl rfl rfl
    rfl rfl rfl rfl

theorem faults_demand {s : System} {p : ℤ} {prot : Prot} (hsound : Sound s 0) (hp : s.pte p = some ⟨prot, .demand⟩)
    (hplace : InPlace s (handlePageFault s p ⟨prot, .demand⟩).2) :
    Faults s (handlePageFault s p ⟨prot, .demand⟩).2 p (handlePageFault s p ⟨prot, .demand⟩).1 := by
  obtain ⟨hsound₁, hzero⟩ := hsound.allocateAnonymousPage
  obtain ⟨hcr3, hmem, hcommitted, hreserved, htables, hvss, hrss, -⟩ := frame_allocateAnonymousPage s
  have hframe : (allocateAnonymousPage s).2.brk = s.brk ∧ (allocateAnonymousPage s).2.invalidated = s.invalidated := by
    rw [allocateAnonymousPage]
    split <;> exact ⟨rfl, rfl⟩
  obtain ⟨page, hpage⟩ : ∃ page, page = (allocateAnonymousPage s).1 := ⟨_, rfl⟩
  obtain ⟨s₁, hs₁⟩ : ∃ s₁, s₁ = (allocateAnonymousPage s).2 := ⟨_, rfl⟩
  obtain ⟨e, he⟩ : ∃ e : Pte, e = ⟨prot, .host page⟩ := ⟨_, rfl⟩
  rw [← hpage, ← hs₁] at hsound₁
  rw [← hpage] at hzero
  rw [← hs₁] at hcr3 hmem hcommitted hreserved htables hvss hrss hframe
  have hfault : handlePageFault s p ⟨prot, .demand⟩ =
      (e, { (if InPlace s s₁ then s₁.storePte p (some e) else s₁) with
        committed := (if InPlace s s₁ then s₁.storePte p (some e) else s₁).committed + 1
        reserved := (if InPlace s s₁ then s₁.storePte p (some e) else s₁).reserved - 1 }) := by
    rw [he, hpage, hs₁]
    rfl
  rw [hfault] at hplace ⊢
  -- the entry is stored where the table was before the pool could move
  have hin : InPlace s s₁ := by
    have hcap : (if InPlace s s₁ then s₁.storePte p (some e) else s₁).capacity = s₁.capacity := by split <;> rfl
    exact hcap.symm.trans hplace
  rw [if_pos hin]
  have hp₁ : s₁.pte p = some ⟨prot, .demand⟩ := by rw [System.pte, hcr3, ← hp, System.pte]
  have hused : e.page ≠ none := by
    rw [he]
    exact Option.some_ne_none page
  have hsound₂ : Sound (s₁.storePte p (some e)) 0 := by
    have howned : weight owned (some e) + 0 = page ::ₘ 0 := by rw [weight_some, he]; rfl
    have hstore := Sound.storePte (some e) (stop_of_pte s₁ hp₁) (x := 0) (howned ▸ hsound₁)
    rwa [hp₁, weight_some, add_zero] at hstore
  refine faults_commit hp rfl hused (by rw [he]) ?_ (hsound₂.congr rfl rfl rfl rfl) ?_ hmem
    (congrArg (· + 1) hcommitted) (congrArg (· - 1) hreserved) htables hrss hvss hframe.1 hframe.2
  · rw [he]
    exact (congrFun hmem page).trans hzero
  · change store (some e) 3 s₁.cr3 p = store (some e) 3 s.cr3 p
    rw [hcr3]

/-- **The first use of a page** shows zeros, or what was mapped. -/
theorem faults_handlePageFault {s : System} {p : ℤ} {e : Pte} (hsound : Sound s 0) (hp : s.pte p = some e)
    (hplace : InPlace s (handlePageFault s p e).2) :
    Faults s (handlePageFault s p e).2 p (handlePageFault s p e).1 := by
  obtain ⟨prot, backing⟩ := e
  cases backing with
  | demand => exact faults_demand hsound hp hplace
  | host page => exact Faults.refl hsound hp (Option.some_ne_none page)
  | mug page rsrv =>
      cases rsrv with
      | false => exact Faults.refl hsound hp (Option.some_ne_none page)
      | true => exact faults_mug hsound hp

/-! ### The translation buffer -/

/-- **The translation buffer knows what the tables know**, unless it is to be emptied. -/
def Coherent (m : Machine) : Prop :=
  m.system.invalidated = false → ∀ i c, m.tlb i = some c →
    Canonical c.1 ∧ m.system.pte c.1 = some c.2 ∧ c.2.page ≠ none

theorem Coherent.retains {m : Machine} {s : System} (h : Coherent m) (hs : Retains m.system s) :
    Coherent { m with system := s } := by
  intro hv i c hc
  obtain ⟨h₁, h₂, h₃⟩ := h (hs.before hv) i c hc
  exact ⟨h₁, hs.entries hv _ _ h₂ h₃, h₃⟩

/-- After a refresh the buffer is to be trusted, and nothing else has changed. -/
theorem coherent_refresh {m : Machine} (h : Coherent m) :
    Coherent m.refresh ∧ m.refresh.system = { m.system with invalidated := false } := by
  rw [Machine.refresh]
  split
  · refine ⟨fun _ i c hc => ?_, rfl⟩
    cases hc
  · rename_i hv
    refine ⟨h, ?_⟩
    rw [Bool.not_eq_true] at hv
    rw [← hv]

/-- What an access to a page finds. -/
structure Finds (m : Machine) (p : ℤ) (r : Option Pte × Machine) : Prop where
  found : ∀ e, r.1 = some e → Canonical p ∧ r.2.system.pte p = some e ∧ e.page ≠ none
  missing : r.1 = none → Canonical p → m.system.pte p = none
  view : ∀ q, r.2.system.view q = m.system.view q
  brk : r.2.system.brk = m.system.brk
  sound : Sound r.2.system 0
  balanced : ∀ c r' t h v, Balanced m.system c r' t h v → Balanced r.2.system c r' t h v
  coherent : Coherent r.2

theorem finds_walkTables {m : Machine} {p : ℤ} (hcoherent : Coherent m) (hsound : Sound m.system 0)
    (hplace : InPlace m.system (walkTables m p).2.system) : Finds m p (walkTables m p) := by
  rw [walkTables] at hplace ⊢
  by_cases hcanon : Canonical p
  · rw [if_pos hcanon] at hplace ⊢
    cases hp : m.system.pte p with
    | none =>
        refine ⟨fun e he => ?_, fun _ _ => hp, fun _ => rfl, rfl, hsound, fun _ _ _ _ _ hb => hb, hcoherent⟩
        cases he
    | some e =>
        rw [hp] at hplace
        have hfault := faults_handlePageFault hsound hp hplace
        refine ⟨fun e' he' => ?_, fun hnone => ?_, hfault.view, hfault.retains.brk, hfault.sound, hfault.balanced,
          fun hv i c hc => ?_⟩
        · cases he'
          exact ⟨hcanon, hfault.pte, hfault.page⟩
        · cases hnone
        · -- the place of the page holds the new entry, and the others what they held
          by_cases hi : i = tlbKey p
          · rw [hi] at hc
            have heq := (Function.update_self (tlbKey p) _ m.tlb).symm.trans hc
            cases heq
            exact ⟨hcanon, hfault.pte, hfault.page⟩
          · have hold : m.tlb i = some c := (Function.update_of_ne hi _ _).symm.trans hc
            exact (hcoherent.retains hfault.retains) hv i c hold
  · rw [if_neg hcanon]
    refine ⟨fun e he => ?_, fun _ h => absurd h hcanon, fun _ => rfl, rfl, hsound, fun _ _ _ _ _ hb => hb,
      hcoherent⟩
    cases he

/-- **An access finds the page that the tables have, and changes nothing that can be seen**, if the pool stays in
place. -/
theorem finds_findPageTableEntry {m : Machine} {p : ℤ} (hcoherent : Coherent m) (hsound : Sound m.system 0)
    (hplace : InPlace m.system (findPageTableEntry m p).2.system) : Finds m p (findPageTableEntry m p) := by
  obtain ⟨hcoherent', hsystem⟩ := coherent_refresh hcoherent
  have hsound' : Sound m.refresh.system 0 := by
    rw [hsystem]
    exact hsound.congr rfl rfl rfl rfl
  have hbalanced' (c r t h v : ℤ) (hb : Balanced m.system c r t h v) : Balanced m.refresh.system c r t h v := by
    rw [hsystem]
    exact hb.congr rfl rfl rfl rfl rfl rfl
  have hpte' (q : ℤ) : m.refresh.system.pte q = m.system.pte q := by rw [hsystem]; rfl
  have hview' (q : ℤ) : m.refresh.system.view q = m.system.view q := by rw [hsystem]; rfl
  have hbrk' : m.refresh.system.brk = m.system.brk := by rw [hsystem]
  rw [findPageTableEntry] at hplace ⊢
  cases hcached : m.refresh.cached p with
  | some e =>
      refine ⟨fun e' he' => ?_, fun hnone => ?_, hview', hbrk', hsound', hbalanced', hcoherent'⟩
      · cases he'
        rw [Machine.cached, Option.bind_eq_some_iff] at hcached
        obtain ⟨c, hc, hsome⟩ := hcached
        split at hsome
        · rename_i heq
          cases hsome
          obtain ⟨h₁, h₂, h₃⟩ := hcoherent' (by rw [hsystem]) _ c hc
          exact ⟨heq ▸ h₁, heq ▸ h₂, h₃⟩
        · cases hsome
      · cases hnone
  | none =>
      rw [hcached] at hplace
      have hplace' : InPlace m.refresh.system (walkTables m.refresh p).2.system := by
        refine Eq.trans hplace ?_
        rw [hsystem]
      have hwalk := finds_walkTables hcoherent' hsound' hplace'
      refine ⟨hwalk.found, fun h hc => (hpte' p).symm.trans (hwalk.missing h hc), fun q => ?_, ?_, hwalk.sound,
        fun c r t h v hb => hwalk.balanced c r t h v (hbalanced' c r t h v hb), hwalk.coherent⟩
      · exact (hwalk.view q).trans (hview' q)
      · exact hwalk.brk.trans hbrk'

/-! ### Reading and writing -/

/-- A byte is read. -/
def loadByte (m : Machine) (p : ℤ) (i : Fin 4096) (need : Need) : Option UInt8 × Machine :=
  match lookupAddress2 m p need with
  | (none, m) => (none, m)
  | (some page, m) => (some (m.system.mem page i), m)

/-- A byte is written to the memory of a page. -/
def System.poke (s : System) (page : ℕ) (i : Fin 4096) (b : UInt8) : System :=
  { s with mem := Function.update s.mem page (Function.update (s.mem page) i b) }

/-- A byte is written; whether that was possible. -/
def storeByte (m : Machine) (p : ℤ) (i : Fin 4096) (b : UInt8) (need : Need) : Bool × Machine :=
  match lookupAddress2 m p need with
  | (none, m) => (false, m)
  | (some page, m) => (true, { m with system := m.system.poke page i b })

theorem owned_of_page {e : Pte} {page : ℕ} (h : e.page = some page) :
    owned e = {page} ∧ ∀ mem, e.backing.data mem = mem page := by
  obtain ⟨prot, backing⟩ := e
  cases backing with
  | demand => cases h
  | host page' =>
      cases h
      exact ⟨rfl, fun _ => rfl⟩
  | mug page' rsrv =>
      cases rsrv with
      | true => cases h
      | false =>
          cases h
          exact ⟨rfl, fun _ => rfl⟩

section Poke

variable {s : System} {p : ℤ} {e : Pte} {page : ℕ} (i : Fin 4096) (b : UInt8)

/-- **A write changes the bytes of its page, and of no other.** -/
theorem view_poke (hsound : Sound s 0) (hp : s.pte p = some e) (hpage : e.page = some page) (q : ℤ) :
    (Same p q → (s.poke page i b).view q = (s.view p).map fun x => (x.1, Function.update x.2 i b)) ∧
      (¬ Same p q → (s.poke page i b).view q = s.view q) := by
  obtain ⟨howned, hdata⟩ := owned_of_page hpage
  constructor
  · intro hq
    have hq' : (s.poke page i b).pte q = some e := (pte_congr s hq).trans hp
    rw [view_of_pte hq', view_of_pte hp, hdata, hdata, Option.map_some]
    exact congrArg (fun x => some (e.prot, x)) (Function.update_self page _ s.mem)
  · intro hq
    have hpte : (s.poke page i b).pte q = s.pte q := rfl
    cases hx : s.pte q with
    | none => rw [view_eq_none.2 hx, view_eq_none.2 (hpte.trans hx)]
    | some x =>
        rw [view_of_pte hx, view_of_pte (hpte.trans hx), data_congr fun f hf => ?_]
        refine Function.update_of_ne ?_ _ _
        rintro rfl
        -- a page that two entries have in common would be there twice
        have hle := owned_add_le_guestPages s hp hx hq
        have hnodup : s.guestPages.Nodup := by
          have hheld := hsound.nodup
          rw [add_zero, System.held] at hheld
          exact (Multiset.nodup_add.1 (Multiset.nodup_add.1 hheld).1).2.1
        have hboth := Multiset.nodup_of_le hle hnodup
        rw [howned] at hboth
        exact Multiset.disjoint_left.1 (Multiset.nodup_add.1 hboth).2.2 (Multiset.mem_singleton_self f) hf

theorem Sound.poke (hsound : Sound s 0) (hp : s.pte p = some e) (hpage : e.page = some page) :
    Sound (s.poke page i b) 0 := by
  have hmem : page ∈ s.guestPages := by
    refine Multiset.mem_of_le (owned_le_guestPages s hp) ?_
    rw [(owned_of_page hpage).1]
    exact Multiset.mem_singleton_self page
  have hnodup := hsound.nodup
  rw [add_zero, System.held] at hnodup
  obtain ⟨hinner, -, hfree⟩ := Multiset.nodup_add.1 hnodup
  have htable := (Multiset.nodup_add.1 hinner).2.2
  refine ⟨hsound.nodup, hsound.lt, fun f hf => ?_, fun f hf => ?_, fun f hf => ?_⟩
  · refine (Function.update_of_ne ?_ _ _).trans (hsound.free_zero f hf)
    rintro rfl
    exact Multiset.disjoint_left.1 hfree (Multiset.mem_add.2 (.inr hmem)) (Multiset.mem_coe.2 hf)
  · refine (Function.update_of_ne ?_ _ _).trans (hsound.table_zero f hf)
    rintro rfl
    exact Multiset.disjoint_left.1 htable hf hmem
  · refine (Function.update_of_ne ?_ _ _).trans (hsound.fresh_zero f hf)
    rintro rfl
    have hlt := hsound.lt f (by
      rw [add_zero, System.held]
      exact Multiset.mem_add.2 (.inl (Multiset.mem_add.2 (.inr hmem))))
    have hle : s.nextPage ≤ f := hf
    omega

end Poke

/-- What an access may see of a page. -/
def seen (v : ℤ → Option (Prot × Page)) (p : ℤ) (need : Need) : Option (Prot × Page) :=
  if Canonical p then (v p).filter fun x => decide ((need.user → x.1.user) ∧ (need.write → x.1.write)) else none

theorem lookupAddress2_snd (m : Machine) (p : ℤ) (need : Need) :
    (lookupAddress2 m p need).2 = (findPageTableEntry m p).2 := by
  rw [lookupAddress2]
  obtain ⟨found, m'⟩ := findPageTableEntry m p
  cases found with
  | none => rfl
  | some e => exact (apply_ite Prod.snd _ _ _).trans (ite_self _)

/-- What `LookupAddress2` finds. -/
theorem lookupAddress2_spec {m : Machine} {p : ℤ} (need : Need) (hcoherent : Coherent m) (hsound : Sound m.system 0)
    (hplace : InPlace m.system (lookupAddress2 m p need).2.system) :
    (lookupAddress2 m p need).2 = (findPageTableEntry m p).2 ∧ Finds m p (findPageTableEntry m p) ∧
      ((lookupAddress2 m p need).1 = none ∧ seen m.system.view p need = none ∨
        ∃ e page, (lookupAddress2 m p need).1 = some page ∧ e.page = some page ∧
          (findPageTableEntry m p).2.system.pte p = some e ∧
          seen m.system.view p need = some (e.prot, (findPageTableEntry m p).2.system.mem page)) := by
  have hsame := lookupAddress2_snd m p need
  rw [hsame] at hplace
  have hfinds := finds_findPageTableEntry hcoherent hsound hplace
  refine ⟨hsame, hfinds, ?_⟩
  obtain ⟨found, m', hfound⟩ : ∃ found m', findPageTableEntry m p = (found, m') := ⟨_, _, rfl⟩
  rw [lookupAddress2]
  rw [hfound] at hfinds ⊢
  cases found with
  | none =>
      refine .inl ⟨rfl, ?_⟩
      rw [seen]
      split
      · rename_i hcanon
        rw [view_eq_none.2 (hfinds.missing rfl hcanon)]
        rfl
      · rfl
  | some e =>
      obtain ⟨hcanon, hpte, hused⟩ := hfinds.found e rfl
      obtain ⟨page, hpage⟩ := Option.ne_none_iff_exists'.1 hused
      have hview : m.system.view p = some (e.prot, m'.system.mem page) := by
        rw [← hfinds.view p, view_of_pte hpte, (owned_of_page hpage).2]
      rw [seen, if_pos hcanon, hview, Option.filter_some]
      dsimp only
      by_cases hallows : Allows e need
      · rw [if_pos hallows]
        exact .inr ⟨e, page, hpage, hpage, hpte, if_pos (decide_eq_true hallows)⟩
      · rw [if_neg hallows]
        exact .inl ⟨rfl, if_neg fun h => hallows (of_decide_eq_true h)⟩

end AddressSpace
