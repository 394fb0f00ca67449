/-
**Who owns the pages of the pool.**

A page of the pool that was handed out is a page table, or the guest's page behind one entry, or it is in the list
of free pages.  No page is two of these, and none is the page of two entries.  A page that is free holds zeros, so
that a page that the guest uses for the first time does.  The numbers that Blink keeps, of committed and reserved
pages, of tables and of pages that are resident, are those of the tables.

A page on its way from one place to another is in transit.

Main definitions:

* `AddressSpace.Sound` — each page has one owner, and free pages hold zeros;
* `AddressSpace.Balanced` — the numbers that are kept, and by how much they are ahead of the tables;
* `AddressSpace.Gives` — a step that takes pages out of the tables.

Main results:

* `AddressSpace.gives_removeVirtual` — **unmapping gives pages back, and nothing else**;
* `AddressSpace.Sound.allocateAnonymousPage` — **a page that is handed out had no owner, and holds zeros**.
-/

import AtuaComputer.MappedRanges

set_option relaxedAutoImplicit false
set_option autoImplicit false

namespace AddressSpace

open RadixTables

/-! ### Owners -/

/-- The page of the pool behind an entry. -/
def owned (e : Pte) : Multiset ℕ :=
  match e.backing with
  | .demand => 0
  | .host page => {page}
  | .mug page _ => {page}

/-- The pages that are tables. -/
def System.tablePages (s : System) : Multiset ℕ := total (fun l => {l}) (fun _ => 0) 4 s.cr3

/-- The pages behind entries. -/
def System.guestPages (s : System) : Multiset ℕ := total (fun _ => 0) owned 4 s.cr3

/-- The sum of what the entries count for. -/
def System.count (s : System) (f : Pte → ℤ) : ℤ := total (fun _ => 0) f 4 s.cr3

/-- The number of tables. -/
def System.tableCount (s : System) : ℤ := total (fun _ => 1) (fun _ => 0) 4 s.cr3

/-- The pages that have an owner, and those that are free. -/
def System.held (s : System) : Multiset ℕ := s.tablePages + s.guestPages + s.pages

/-- The entry's page is in use. -/
def committedOf (e : Pte) : ℤ :=
  match e.backing with
  | .host _ => 1
  | .mug _ false => 1
  | _ => 0

/-- The entry's page is not in use yet. -/
def reservedOf (e : Pte) : ℤ := 1 - committedOf e

/-- Each page has one owner, some are in transit, and the pages that are free or tables hold zeros. -/
structure Sound (s : System) (x : Multiset ℕ) : Prop where
  nodup : (s.held + x).Nodup
  lt : ∀ f ∈ s.held + x, f < s.nextPage
  free_zero : ∀ f ∈ s.pages, s.mem f = fun _ => 0
  table_zero : ∀ f ∈ s.tablePages, s.mem f = fun _ => 0
  fresh_zero : ∀ f, s.nextPage ≤ f → s.mem f = fun _ => 0

/-- The numbers that are kept, ahead of the tables by some amounts: committed and reserved pages, tables, resident
pages beyond these, and mapped pages. -/
structure Balanced (s : System) (c r t h v : ℤ) : Prop where
  committed : s.committed = s.count committedOf + c
  reserved : s.reserved = s.count reservedOf + r
  tables : s.tables = s.tableCount + t
  rss : s.rss = s.committed + s.tables + h
  vss : s.vss = s.count (fun _ => 1) + v

theorem Sound.mono {s : System} {x y : Multiset ℕ} (h : Sound s y) (hle : x ≤ y) : Sound s x where
  nodup := Multiset.nodup_of_le (add_le_add_right hle _) h.nodup
  lt f hf := h.lt f (Multiset.mem_of_le (add_le_add_right hle _) hf)
  free_zero := h.free_zero
  table_zero := h.table_zero
  fresh_zero := h.fresh_zero

/-- Nothing counts but the tables, the free pages and the memory. -/
theorem Sound.congr {s s' : System} {x : Multiset ℕ} (h : Sound s x) (htables : s'.cr3 = s.cr3)
    (hpages : s'.pages = s.pages) (hnext : s'.nextPage = s.nextPage) (hmem : s'.mem = s.mem) : Sound s' x := by
  obtain ⟨h₁, h₂, h₃, h₄, h₅⟩ := h
  refine ⟨?_, ?_, ?_, ?_, ?_⟩ <;>
    simpa only [System.held, System.tablePages, System.guestPages, htables, hpages, hnext, hmem]

/-- Nothing counts but the tables and the numbers. -/
theorem Balanced.congr {s s' : System} {c r t h v : ℤ} (hb : Balanced s c r t h v) (htables : s'.cr3 = s.cr3)
    (hcommitted : s'.committed = s.committed) (hreserved : s'.reserved = s.reserved) (hnumber : s'.tables = s.tables)
    (hrss : s'.rss = s.rss) (hvss : s'.vss = s.vss) : Balanced s' c r t h v := by
  obtain ⟨h₁, h₂, h₃, h₄, h₅⟩ := hb
  refine ⟨?_, ?_, ?_, ?_, ?_⟩ <;>
    simpa only [System.count, System.tableCount, htables, hcommitted, hreserved, hnumber, hrss, hvss]

/-! ### Entries of the tables -/

section Entries

variable (s : System) {p : ℤ} {e : Pte}

theorem total_storePte {M : Type} [AddCancelCommMonoid M] (w : ℕ → M) (u : Pte → M) (e : Option Pte)
    (h : s.stop p = 0) :
    total w u 4 (s.storePte p e).cr3 + weight u (s.pte p) = total w u 4 s.cr3 + weight u e :=
  total_store h

theorem tablePages_storePte (e : Option Pte) : (s.storePte p e).tablePages = s.tablePages := by
  by_cases h : s.stop p = 0
  · have htotal := total_storePte s (fun l => ({l} : Multiset ℕ)) (fun _ => 0) e h
    have hzero (o : Option Pte) : weight (fun _ => (0 : Multiset ℕ)) o = 0 := by cases o <;> rfl
    rwa [hzero, hzero, add_zero, add_zero] at htotal
  · rw [System.storePte, store_of_stop_pos h]

theorem tableCount_storePte (e : Option Pte) : (s.storePte p e).tableCount = s.tableCount := by
  by_cases h : s.stop p = 0
  · have htotal := total_storePte s (fun _ => (1 : ℤ)) (fun _ => 0) e h
    have hzero (o : Option Pte) : weight (fun _ => (0 : ℤ)) o = 0 := by cases o <;> rfl
    rwa [hzero, hzero, add_zero, add_zero] at htotal
  · rw [System.storePte, store_of_stop_pos h]

theorem guestPages_storePte (e : Option Pte) (h : s.stop p = 0) :
    (s.storePte p e).guestPages + weight owned (s.pte p) = s.guestPages + weight owned e :=
  total_storePte s (fun _ => 0) owned e h

theorem count_storePte (f : Pte → ℤ) (e : Option Pte) (h : s.stop p = 0) :
    (s.storePte p e).count f + weight f (s.pte p) = s.count f + weight f e :=
  total_storePte s (fun _ => 0) f e h

/-- The page of an entry is among the guest's pages. -/
theorem owned_le_guestPages (h : s.pte p = some e) : owned e ≤ s.guestPages := by
  have hstore := guestPages_storePte s none (stop_of_pte s h)
  rw [h, weight_some, weight_none, add_zero] at hstore
  rw [← hstore]
  exact Multiset.le_add_left _ _

/-- Two entries have pages of their own. -/
theorem owned_add_le_guestPages {q : ℤ} {e' : Pte} (hp : s.pte p = some e) (hq : s.pte q = some e')
    (hne : ¬ Same p q) : owned e + owned e' ≤ s.guestPages := by
  have hstore := guestPages_storePte s none (stop_of_pte s hp)
  rw [hp, weight_some, weight_none, add_zero] at hstore
  have hrest : (s.storePte p none).pte q = some e' := by rw [pte_storePte_of_not_same s hne, hq]
  rw [← hstore, add_comm]
  exact Multiset.add_le_add_right (owned_le_guestPages _ hrest)

end Entries

/-! ### Giving pages back -/

/-- A step that takes pages out of the tables and gives them back. -/
structure Gives (s s' : System) : Prop where
  sound : ∀ x, Sound s x → Sound s' x
  balanced : ∀ c r t h v, Balanced s c r t h v → Balanced s' c r t h v
  mem : ∀ x, Sound s x → ∀ f ∈ s'.guestPages, s'.mem f = s.mem f
  guest : s'.guestPages ≤ s.guestPages
  capacity : s'.capacity = s.capacity

theorem Gives.refl (s : System) : Gives s s where
  sound _ h := h
  balanced _ _ _ _ _ h := h
  mem _ _ _ _ := rfl
  guest := le_rfl
  capacity := rfl

theorem Gives.trans {s₁ s₂ s₃ : System} (h : Gives s₁ s₂) (h' : Gives s₂ s₃) : Gives s₁ s₃ where
  sound x hx := h'.sound x (h.sound x hx)
  balanced c r t n v hb := h'.balanced c r t n v (h.balanced c r t n v hb)
  mem x hx f hf := by
    rw [h'.mem x (h.sound x hx) f hf, h.mem x hx f (Multiset.mem_of_le h'.guest hf)]
  guest := h'.guest.trans h.guest
  capacity := h'.capacity.trans h.capacity

theorem guestPages_freePage (e : Pte) (s : System) : (freePage e s).guestPages = s.guestPages := by
  rw [System.guestPages, cr3_freePage, System.guestPages]

theorem capacity_freePage (e : Pte) (s : System) : (freePage e s).capacity = s.capacity := by
  rw [freePage]
  split <;> rfl

/-- A page in transit is given back. -/
theorem Sound.freePage {s : System} {e : Pte} {x : Multiset ℕ} (h : Sound s (owned e + x)) :
    Sound (freePage e s) x := by
  obtain ⟨prot, backing⟩ := e
  cases backing with
  | demand => exact (h.mono (Multiset.le_add_left _ _)).congr rfl rfl rfl rfl
  | mug page rsrv => cases rsrv <;> exact (h.mono (Multiset.le_add_left _ _)).congr rfl rfl rfl rfl
  | host page =>
      have hheld : (AddressSpace.freePage ⟨prot, .host page⟩ s).held + x = s.held + ({page} + x) := by
        change s.tablePages + s.guestPages + ((page :: s.pages : List ℕ) : Multiset ℕ) + x = _
        rw [← Multiset.cons_coe, ← Multiset.singleton_add, System.held]
        abel
      have hlt : page < s.nextPage := h.lt page (by simp [owned])
      refine ⟨hheld ▸ h.nodup, fun f hf => h.lt f (hheld ▸ hf), ?_, ?_, ?_⟩
      · intro f hf
        by_cases heq : f = page
        · rw [heq]
          exact Function.update_self _ _ _
        · refine (Function.update_of_ne heq _ _).trans (h.free_zero f ?_)
          exact (List.mem_cons.1 hf).resolve_left heq
      · intro f hf
        by_cases heq : f = page
        · rw [heq]
          exact Function.update_self _ _ _
        · exact (Function.update_of_ne heq _ _).trans (h.table_zero f hf)
      · intro f hf
        have hne : f ≠ page := by
          have : s.nextPage ≤ f := hf
          omega
        exact (Function.update_of_ne hne _ _).trans (h.fresh_zero f hf)

/-- The memory of a page that has an owner isn't touched. -/
theorem mem_freePage {s : System} {e : Pte} {x : Multiset ℕ} (h : Sound s (owned e + x)) {f : ℕ}
    (hf : f ∈ s.guestPages) : (freePage e s).mem f = s.mem f := by
  obtain ⟨prot, backing⟩ := e
  cases backing with
  | demand => rfl
  | mug page rsrv => cases rsrv <;> rfl
  | host page =>
      refine Function.update_of_ne ?_ _ _
      rintro rfl
      have hdisj := (Multiset.nodup_add.1 h.nodup).2.2
      refine Multiset.disjoint_left.1 hdisj ?_ (Multiset.mem_add.2 (.inl (Multiset.mem_singleton_self f)))
      exact Multiset.mem_add.2 (.inl (Multiset.mem_add.2 (.inr hf)))

/-- What is counted is what the entry counted for. -/
theorem numbers_freePage (e : Pte) (s : System) :
    (freePage e s).committed = s.committed - committedOf e ∧ (freePage e s).reserved = s.reserved - reservedOf e ∧
      (freePage e s).tables = s.tables ∧ (freePage e s).rss = s.rss - committedOf e ∧
      (freePage e s).vss = s.vss := by
  obtain ⟨prot, backing⟩ := e
  cases backing with
  | demand => simp [freePage, committedOf, reservedOf]
  | host page => simp [freePage, committedOf, reservedOf]
  | mug page rsrv => cases rsrv <;> simp [freePage, committedOf, reservedOf]

theorem Balanced.freePage {s : System} {e : Pte} {c r t h v : ℤ}
    (hb : Balanced s (c + committedOf e) (r + reservedOf e) t h v) : Balanced (freePage e s) c r t h v := by
  obtain ⟨h₁, h₂, h₃, h₄, h₅⟩ := hb
  obtain ⟨hn₁, hn₂, hn₃, hn₄, hn₅⟩ := numbers_freePage e s
  have hcount (f : Pte → ℤ) : (AddressSpace.freePage e s).count f = s.count f := by
    rw [System.count, cr3_freePage, System.count]
  have htables : (AddressSpace.freePage e s).tableCount = s.tableCount := by
    rw [System.tableCount, cr3_freePage, System.tableCount]
  have hc := hcount committedOf
  have hr := hcount reservedOf
  have hv := hcount fun _ => 1
  refine ⟨?_, ?_, ?_, ?_, ?_⟩ <;> omega

/-- An entry that is taken out brings its page into transit. -/
theorem Sound.storePte {s : System} {p : ℤ} {x : Multiset ℕ} (e : Option Pte) (hstop : s.stop p = 0)
    (h : Sound s (weight owned e + x)) : Sound (s.storePte p e) (weight owned (s.pte p) + x) := by
  have hheld : (s.storePte p e).held + (weight owned (s.pte p) + x) = s.held + (weight owned e + x) := by
    have hguest := guestPages_storePte s e hstop
    rw [System.held, System.held, tablePages_storePte]
    calc s.tablePages + (s.storePte p e).guestPages + s.pages + (weight owned (s.pte p) + x)
        = s.tablePages + ((s.storePte p e).guestPages + weight owned (s.pte p)) + s.pages + x := by abel
      _ = s.tablePages + s.guestPages + s.pages + (weight owned e + x) := by
        rw [hguest]
        abel
  exact ⟨hheld ▸ h.nodup, fun f hf => h.lt f (hheld ▸ hf), h.free_zero,
    fun f hf => h.table_zero f (tablePages_storePte s e ▸ hf), h.fresh_zero⟩

theorem Balanced.storePte {s : System} {p : ℤ} {c r t h v : ℤ} (e : Option Pte) (hstop : s.stop p = 0)
    (hb : Balanced s c r t h v) :
    Balanced (s.storePte p e) (c + weight committedOf (s.pte p) - weight committedOf e)
      (r + weight reservedOf (s.pte p) - weight reservedOf e) t h
      (v + weight (fun _ => 1) (s.pte p) - weight (fun _ => 1) e) := by
  obtain ⟨h₁, h₂, h₃, h₄, h₅⟩ := hb
  have hc := count_storePte s committedOf e hstop
  have hr := count_storePte s reservedOf e hstop
  have hv := count_storePte s (fun _ => 1) e hstop
  have ht := tableCount_storePte s (p := p) e
  have hsame : (s.storePte p e).committed = s.committed ∧ (s.storePte p e).reserved = s.reserved ∧
      (s.storePte p e).tables = s.tables ∧ (s.storePte p e).rss = s.rss ∧ (s.storePte p e).vss = s.vss :=
    ⟨rfl, rfl, rfl, rfl, rfl⟩
  refine ⟨?_, ?_, ?_, ?_, ?_⟩ <;> omega

/-- **A page of a range is unmapped.** -/
theorem gives_removePage (s : System) (p : ℤ) : Gives s (removePage s p) := by
  cases h : s.pte p with
  | none =>
      rw [removePage_none s h]
      exact Gives.refl s
  | some e =>
      have hstop := stop_of_pte s h
      have hsound (x : Multiset ℕ) (hx : Sound s x) : Sound (s.storePte p none) (owned e + x) := by
        have := Sound.storePte none hstop (x := x) (by rwa [weight_none, zero_add])
        rwa [h, weight_some] at this
      have hguest : (s.storePte p none).guestPages + owned e = s.guestPages := by
        have := guestPages_storePte s none hstop
        rwa [h, weight_some, weight_none, add_zero] at this
      rw [removePage_some s h]
      refine ⟨fun x hx => ?_, fun c r t n v hb => ?_, fun x hx f hf => ?_, ?_, ?_⟩
      · obtain ⟨h₁, h₂, h₃, h₄, h₅⟩ := (hsound x hx).freePage
        exact ⟨h₁, h₂, h₃, h₄, h₅⟩
      · have hstore := hb.storePte none hstop
        rw [h] at hstore
        simp only [weight_some, weight_none, sub_zero] at hstore
        obtain ⟨h₁, h₂, h₃, h₄, h₅⟩ := hstore.freePage
        refine ⟨h₁, h₂, h₃, h₄, ?_⟩
        change (AddressSpace.freePage e (s.storePte p none)).vss - 1 =
          (AddressSpace.freePage e (s.storePte p none)).count (fun _ => 1) + v
        omega
      · have hf' : f ∈ (s.storePte p none).guestPages := by rwa [← guestPages_freePage e]
        exact mem_freePage (hsound x hx) hf'
      · rw [← hguest]
        exact (guestPages_freePage e _).le.trans (Multiset.le_add_right _ _)
      · exact capacity_freePage e _

/-- An empty table is given back. -/
theorem gives_freeLeaf {s : System} {p : ℤ} (h : LeafEmpty 3 s.cr3 p) : Gives s (freeLeaf s p) := by
  rw [freeLeaf]
  cases hl : leaf 3 s.cr3 p with
  | none => exact Gives.refl s
  | some l =>
      have htotal {M : Type} [AddCancelCommMonoid M] (w : ℕ → M) (u : Pte → M) :
          total w u 4 (dropLeaf 2 s.cr3 p) + w l.1 = total w u 4 s.cr3 := by
        have := total_dropLeaf (w := w) (u := u) h
        rwa [hl, weight_some] at this
      have htables : total (fun l => ({l} : Multiset ℕ)) (fun _ => 0) 4 (dropLeaf 2 s.cr3 p) + {l.1} =
          s.tablePages := htotal _ _
      have hguest : total (fun _ => (0 : Multiset ℕ)) owned 4 (dropLeaf 2 s.cr3 p) = s.guestPages := by
        have := htotal (fun _ => (0 : Multiset ℕ)) owned
        rwa [add_zero] at this
      have hcount (f : Pte → ℤ) : total (fun _ => (0 : ℤ)) f 4 (dropLeaf 2 s.cr3 p) = s.count f := by
        have := htotal (fun _ => (0 : ℤ)) f
        rwa [add_zero] at this
      have hnumber : total (fun _ => (1 : ℤ)) (fun _ => 0) 4 (dropLeaf 2 s.cr3 p) + 1 = s.tableCount := htotal _ _
      refine ⟨fun x hx => ?_, fun c r t n v hb => ?_, fun _ _ _ _ => rfl, hguest.le, rfl⟩
      · have hheld : total (fun l => ({l} : Multiset ℕ)) (fun _ => 0) 4 (dropLeaf 2 s.cr3 p) +
            total (fun _ => 0) owned 4 (dropLeaf 2 s.cr3 p) + ((l.1 :: s.pages : List ℕ) : Multiset ℕ) + x =
              s.held + x := by
          rw [hguest, System.held, ← htables, ← Multiset.cons_coe, ← Multiset.singleton_add]
          abel
        refine ⟨?_, ?_, ?_, ?_, hx.fresh_zero⟩
        · exact hheld ▸ hx.nodup
        · exact fun f hf => hx.lt f (hheld ▸ hf)
        · intro f hf
          rcases List.mem_cons.1 hf with rfl | hmem
          · exact hx.table_zero l.1 (htables ▸ Multiset.mem_add.2 (.inr (Multiset.mem_singleton_self l.1)))
          · exact hx.free_zero f hmem
        · intro f hf
          exact hx.table_zero f (htables ▸ Multiset.mem_add.2 (.inl hf))
      · obtain ⟨h₁, h₂, h₃, h₄, h₅⟩ := hb
        have hc := hcount committedOf
        have hr := hcount reservedOf
        have hv := hcount fun _ => 1
        refine ⟨?_, ?_, ?_, ?_, ?_⟩ <;> simp only [System.count, System.tableCount] <;>
          simp only [System.count, System.tableCount] at h₁ h₂ h₃ h₄ h₅ hc hr hv hnumber <;> omega

theorem gives_removeStep {s : System} {run p : ℤ} (e : ℤ) (h : Run s run p) : Gives s (removeStep s run p e) := by
  rw [removeStep]
  split
  · exact gives_removePage s p
  · split
    · rename_i hfull
      exact (gives_removePage s p).trans (gives_freeLeaf (h.leafEmpty hfull.1 hfull.2))
    · exact gives_removePage s p

/-- **Unmapping gives pages back, and nothing else.** -/
theorem gives_removeVirtual {s : System} {run p : ℤ} (e : ℤ) (h : Run s run p) :
    Gives s (removeVirtual s run p e) := by
  obtain ⟨d, hd⟩ : ∃ d, d = (e - p).toNat := ⟨_, rfl⟩
  induction d using Nat.strong_induction_on generalizing s run p with
  | _ d ih =>
      by_cases hlt : p < e
      · by_cases hstop : s.stop p = 0
        · rw [removeVirtual_page hlt hstop]
          exact (gives_removeStep e h).trans (ih _ (by omega) (h.step e) rfl)
        · have hpos := s.stride_pos p
          rw [removeVirtual_jump hlt hstop]
          exact ih _ (by omega) (Run.start s _) rfl
      · rw [removeVirtual_of_le (by omega)]
        exact Gives.refl s

/-- Where a page is mapped, some tables are left. -/
theorem exists_prune {s : System} {p : ℤ} (h : s.pte p ≠ none) : ∃ t, (prune 3 s.cr3).2 = some t := by
  cases hp : (prune 3 s.cr3).2 with
  | none =>
      have hlookup := lookup_prune 3 s.cr3 p
      rw [hp, Option.bind_none] at hlookup
      exact absurd hlookup.symm h
  | some t => exact ⟨t, rfl⟩

theorem pte_cleanseMemory {s : System} {p : ℤ} (h : s.pte p ≠ none) (q : ℤ) :
    (cleanseMemory s).pte q = s.pte q := by
  obtain ⟨t, ht⟩ := exists_prune h
  have hlookup := lookup_prune 3 s.cr3 q
  rw [ht, Option.bind_some] at hlookup
  rw [cleanseMemory]
  split
  · rw [System.pte, System.pte, ← hlookup]
    dsimp only
    rw [ht, Option.getD_some]
  · rfl

/-- Empty tables are given back. -/
theorem gives_cleanseMemory {s : System} {p : ℤ} (h : s.pte p ≠ none) : Gives s (cleanseMemory s) := by
  obtain ⟨t, ht⟩ := exists_prune h
  rw [cleanseMemory]
  split
  · have htotal {M : Type} [AddCancelCommMonoid M] (w : ℕ → M) (u : Pte → M) :
        ((prune 3 s.cr3).1.map w).sum + total w u 4 t = total w u 4 s.cr3 := by
      have := total_prune (w := w) (u := u) 3 s.cr3
      rwa [ht, weight_some] at this
    have hzero {M : Type} [AddCancelCommMonoid M] (l : List ℕ) : (l.map fun _ => (0 : M)).sum = 0 :=
      List.sum_eq_zero fun x hx => by
        obtain ⟨_, _, rfl⟩ := List.mem_map.1 hx
        rfl
    have htables : ((prune 3 s.cr3).1 : Multiset ℕ) + total (fun l => ({l} : Multiset ℕ)) (fun _ => 0) 4 t =
        s.tablePages := by
      have := htotal (fun l => ({l} : Multiset ℕ)) (fun _ => 0)
      rwa [← Multiset.sum_coe, ← Multiset.map_coe, Multiset.sum_map_singleton] at this
    have hguest : total (fun _ => (0 : Multiset ℕ)) owned 4 t = s.guestPages := by
      have := htotal (fun _ => (0 : Multiset ℕ)) owned
      rwa [hzero, zero_add] at this
    have hcount (f : Pte → ℤ) : total (fun _ => (0 : ℤ)) f 4 t = s.count f := by
      have := htotal (fun _ => (0 : ℤ)) f
      rwa [hzero, zero_add] at this
    have hnumber : ((prune 3 s.cr3).1.length : ℤ) + total (fun _ => (1 : ℤ)) (fun _ => 0) 4 t = s.tableCount := by
      have := htotal (fun _ => (1 : ℤ)) (fun _ => 0)
      rwa [List.map_const', List.sum_replicate, nsmul_eq_mul, mul_one] at this
    dsimp only
    rw [ht, Option.getD_some]
    refine ⟨fun x hx => ?_, fun c r n m v hb => ?_, fun _ _ _ _ => rfl, hguest.le, rfl⟩
    · have hheld : total (fun l => ({l} : Multiset ℕ)) (fun _ => 0) 4 t + total (fun _ => 0) owned 4 t +
          (((prune 3 s.cr3).1.reverse ++ s.pages : List ℕ) : Multiset ℕ) + x = s.held + x := by
        rw [hguest, System.held, ← htables, ← Multiset.coe_add, Multiset.coe_reverse]
        abel
      refine ⟨?_, ?_, ?_, ?_, hx.fresh_zero⟩
      · exact hheld ▸ hx.nodup
      · exact fun f hf => hx.lt f (hheld ▸ hf)
      · intro f hf
        rcases List.mem_append.1 hf with hfreed | hmem
        · exact hx.table_zero f (htables ▸ Multiset.mem_add.2 (.inl (List.mem_reverse.1 hfreed)))
        · exact hx.free_zero f hmem
      · intro f hf
        exact hx.table_zero f (htables ▸ Multiset.mem_add.2 (.inr hf))
    · obtain ⟨h₁, h₂, h₃, h₄, h₅⟩ := hb
      have hc := hcount committedOf
      have hr := hcount reservedOf
      have hv := hcount fun _ => 1
      refine ⟨?_, ?_, ?_, ?_, ?_⟩ <;> simp only [System.count, System.tableCount] <;>
        simp only [System.count, System.tableCount] at h₁ h₂ h₃ h₄ h₅ hc hr hv hnumber <;> omega
  · exact Gives.refl s

/-! ### Taking pages -/

theorem le_growTo (need c : ℕ) : c ≤ growTo need c := by
  induction c using growTo.induct need with
  | case1 c h ih =>
      rw [growTo, if_pos h]
      omega
  | case2 c h => rw [growTo, if_neg h]

/-- What taking a page from the pool leaves as it is. -/
theorem frame_allocateAnonymousPage (s : System) :
    (allocateAnonymousPage s).2.cr3 = s.cr3 ∧ (allocateAnonymousPage s).2.mem = s.mem ∧
      (allocateAnonymousPage s).2.committed = s.committed ∧ (allocateAnonymousPage s).2.reserved = s.reserved ∧
      (allocateAnonymousPage s).2.tables = s.tables ∧ (allocateAnonymousPage s).2.vss = s.vss ∧
      (allocateAnonymousPage s).2.rss = s.rss + 1 ∧ s.capacity ≤ (allocateAnonymousPage s).2.capacity := by
  rw [allocateAnonymousPage]
  split
  · exact ⟨rfl, rfl, rfl, rfl, rfl, rfl, rfl, le_rfl⟩
  · exact ⟨rfl, rfl, rfl, rfl, rfl, rfl, rfl, le_growTo _ _⟩

/-- **A page that is handed out had no owner, and holds zeros.** -/
theorem Sound.allocateAnonymousPage {s : System} {x : Multiset ℕ} (h : Sound s x) :
    Sound (allocateAnonymousPage s).2 ((allocateAnonymousPage s).1 ::ₘ x) ∧
      s.mem (allocateAnonymousPage s).1 = fun _ => 0 := by
  rw [AddressSpace.allocateAnonymousPage]
  cases hpages : s.pages with
  | cons page rest =>
      have hheld : s.tablePages + s.guestPages + (rest : Multiset ℕ) + (page ::ₘ x) = s.held + x := by
        rw [System.held, hpages, ← Multiset.cons_coe]
        simp only [← Multiset.singleton_add]
        abel
      refine ⟨⟨?_, ?_, ?_, h.table_zero, h.fresh_zero⟩, h.free_zero page (hpages ▸ List.mem_cons_self)⟩
      · exact hheld ▸ h.nodup
      · exact fun f hf => h.lt f (hheld ▸ hf)
      · exact fun f hf => h.free_zero f (hpages ▸ List.mem_cons_of_mem page hf)
  | nil =>
      have hheld : s.held = s.tablePages + s.guestPages := by
        rw [System.held, hpages, Multiset.coe_nil, add_zero]
      have hnew : s.tablePages + s.guestPages + ((List.range' (s.nextPage + 1) 63 : List ℕ) : Multiset ℕ) +
          (s.nextPage ::ₘ x) = s.held + x + (List.range' s.nextPage 64 : List ℕ) := by
        rw [List.range'_succ (n := 63), hheld, ← Multiset.cons_coe]
        simp only [← Multiset.singleton_add]
        abel
      refine ⟨⟨?_, ?_, ?_, h.table_zero, fun f hf => h.fresh_zero f ?_⟩, h.fresh_zero _ le_rfl⟩
      · refine hnew ▸ (Multiset.nodup_add.2 ⟨h.nodup, Multiset.coe_nodup.2 List.nodup_range', ?_⟩)
        refine Multiset.disjoint_left.2 fun hf hf' => ?_
        have hlt := h.lt _ hf
        have := List.mem_range'_1.1 (Multiset.mem_coe.1 hf')
        omega
      · intro f hf
        rcases Multiset.mem_add.1 (hnew ▸ hf) with hold | hfresh
        · exact Nat.lt_add_right 64 (h.lt f hold)
        · have := List.mem_range'_1.1 (Multiset.mem_coe.1 hfresh)
          exact this.2
      · intro f hf
        have hmem : f ∈ List.range' (s.nextPage + 1) 63 := hf
        have := List.mem_range'_1.1 hmem
        exact h.fresh_zero f (by omega)
      · exact (Nat.le_add_right s.nextPage 64).trans hf

end AddressSpace
