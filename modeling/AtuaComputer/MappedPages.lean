/-
**What a mapping makes.**

`ReserveVirtual` unmaps its range and then makes an entry for each of its pages.  It holds a pointer to the entry of
the page, and goes from one entry to the next until the table ends.  A page that shows a file is taken from the pool
on the way, and a table that is missing is too.  If the pool has to grow for that, the pointer leads to the block that
was given up, and the entries up to the end of the table are lost.

Main definitions:

* `AddressSpace.System.view` — what the guest sees of a page: its protection and its bytes;
* `AddressSpace.opening` — the page of a mapping at which the way down to the table of another one was taken.

Main results:

* `AddressSpace.maps_mapRange` — **a mapping shows what was asked for, and leaves the other pages alone**, if the pool
  stays in place;
* `AddressSpace.pte_reservePages_iff` — **which pages of a mapping are lost when it doesn't**.
-/

import AtuaComputer.PageOwners
import Mathlib.Data.List.TakeWhile

set_option relaxedAutoImplicit false
set_option autoImplicit false

namespace AddressSpace

open RadixTables

/-! ### What the guest sees -/

/-- The bytes of the page of an entry. -/
def Backing.data (mem : ℕ → Page) : Backing → Page
  | .demand => fun _ => 0
  | .host page => mem page
  | .mug page _ => mem page

/-- What the guest sees of a page. -/
def System.view (s : System) (q : ℤ) : Option (Prot × Page) :=
  (s.pte q).map fun e => (e.prot, e.backing.data s.mem)

theorem view_eq_none {s : System} {q : ℤ} : s.view q = none ↔ s.pte q = none := Option.map_eq_none_iff

theorem view_of_pte {s : System} {q : ℤ} {e : Pte} (h : s.pte q = some e) :
    s.view q = some (e.prot, e.backing.data s.mem) := by
  rw [System.view, h, Option.map_some]

theorem data_congr {e : Pte} {mem mem' : ℕ → Page} (h : ∀ f ∈ owned e, mem' f = mem f) :
    e.backing.data mem' = e.backing.data mem := by
  obtain ⟨prot, backing⟩ := e
  cases backing with
  | demand => rfl
  | host page => exact h page (Multiset.mem_singleton_self page)
  | mug page rsrv => exact h page (Multiset.mem_singleton_self page)

/-- The view of a page depends on its entry and on the memory of the guest's pages. -/
theorem view_congr {s s' : System} {q : ℤ} (hpte : s'.pte q = s.pte q)
    (hmem : ∀ f ∈ s'.guestPages, s'.mem f = s.mem f) : s'.view q = s.view q := by
  cases h : s.pte q with
  | none => rw [view_eq_none.2 h, view_eq_none.2 (hpte.trans h)]
  | some e =>
      rw [view_of_pte h, view_of_pte (hpte.trans h)]
      rw [data_congr fun f hf => hmem f (Multiset.mem_of_le (owned_le_guestPages s' (hpte.trans h)) hf)]

theorem Gives.view {s s' : System} {q : ℤ} {x : Multiset ℕ} (h : Gives s s') (hx : Sound s x)
    (hpte : s'.pte q = s.pte q) : s'.view q = s.view q := view_congr hpte (h.mem x hx)

/-! ### Opening a table -/

theorem frame_allocatePageTable (s : System) :
    (allocatePageTable s).2.cr3 = s.cr3 ∧ (allocatePageTable s).2.mem = s.mem ∧
      (allocatePageTable s).2.committed = s.committed ∧ (allocatePageTable s).2.reserved = s.reserved ∧
      (allocatePageTable s).2.tables = s.tables + 1 ∧ (allocatePageTable s).2.vss = s.vss ∧
      (allocatePageTable s).2.rss = s.rss + 1 ∧ s.capacity ≤ (allocatePageTable s).2.capacity := by
  obtain ⟨h₁, h₂, h₃, h₄, h₅, h₆, h₇, h₈⟩ := frame_allocateAnonymousPage s
  exact ⟨h₁, h₂, h₃, h₄, congrArg (· + 1) h₅, h₆, h₇, h₈⟩

theorem Sound.allocatePageTable {s : System} {x : Multiset ℕ} (h : Sound s x) :
    Sound (allocatePageTable s).2 ((allocatePageTable s).1 ::ₘ x) ∧ s.mem (allocatePageTable s).1 = fun _ => 0 :=
  ⟨h.allocateAnonymousPage.1.congr rfl rfl rfl rfl, h.allocateAnonymousPage.2⟩

/-- What taking several tables leaves as it is. -/
theorem frame_allocatePageTables (k : ℕ) (s : System) :
    (allocatePageTables k s).2.cr3 = s.cr3 ∧ (allocatePageTables k s).2.mem = s.mem ∧
      (allocatePageTables k s).2.committed = s.committed ∧ (allocatePageTables k s).2.reserved = s.reserved ∧
      (allocatePageTables k s).2.tables = s.tables + k ∧ (allocatePageTables k s).2.vss = s.vss ∧
      (allocatePageTables k s).2.rss = s.rss + k ∧ s.capacity ≤ (allocatePageTables k s).2.capacity ∧
      (allocatePageTables k s).1.length = k := by
  induction k generalizing s with
  | zero =>
      refine ⟨rfl, rfl, rfl, rfl, ?_, rfl, ?_, le_rfl, rfl⟩
      · exact (add_zero _).symm
      · exact (add_zero _).symm
  | succ k ih =>
      obtain ⟨h₁, h₂, h₃, h₄, h₅, h₆, h₇, h₈⟩ := frame_allocatePageTable s
      obtain ⟨i₁, i₂, i₃, i₄, i₅, i₆, i₇, i₈, i₉⟩ := ih (allocatePageTable s).2
      rw [allocatePageTables]
      refine ⟨i₁.trans h₁, i₂.trans h₂, i₃.trans h₃, i₄.trans h₄, ?_, i₆.trans h₆, ?_, h₈.trans i₈, ?_⟩
      · rw [i₅, h₅]
        push_cast
        ring
      · rw [i₇, h₇]
        push_cast
        ring
      · rw [List.length_cons, i₉]

/-- If the pool stayed in place, it did for each of the tables. -/
theorem allocatePageTables_inPlace {k : ℕ} {s : System} (h : InPlace s (allocatePageTables k s).2) :
    ∀ l ∈ (allocatePageTables k s).1, l.2 = true := by
  induction k generalizing s with
  | zero => exact fun l hl => absurd hl List.not_mem_nil
  | succ k ih =>
      obtain ⟨-, -, -, -, -, -, -, h₈⟩ := frame_allocatePageTable s
      obtain ⟨-, -, -, -, -, -, -, i₈, -⟩ := frame_allocatePageTables k (allocatePageTable s).2
      have hcap : (allocatePageTables k (allocatePageTable s).2).2.capacity = s.capacity := h
      intro l hl
      rcases List.mem_cons.1 hl with rfl | hrest
      · exact decide_eq_true (le_antisymm (i₈.trans hcap.le) h₈)
      · exact ih (hcap.trans (le_antisymm h₈ (i₈.trans hcap.le))) l hrest

theorem Sound.allocatePageTables {s : System} {x : Multiset ℕ} (k : ℕ) (h : Sound s x) :
    Sound (allocatePageTables k s).2 (((allocatePageTables k s).1.map (·.1) : List ℕ) + x) ∧
      ∀ l ∈ (allocatePageTables k s).1, s.mem l.1 = fun _ => 0 := by
  induction k generalizing s x with
  | zero => exact ⟨by simpa [AddressSpace.allocatePageTables] using h, fun l hl => absurd hl List.not_mem_nil⟩
  | succ k ih =>
      obtain ⟨hsound, hzero⟩ := h.allocatePageTable
      obtain ⟨isound, izero⟩ := ih hsound
      have hmem : (AddressSpace.allocatePageTable s).2.mem = s.mem := (frame_allocatePageTable s).2.1
      rw [AddressSpace.allocatePageTables]
      refine ⟨?_, fun l hl => ?_⟩
      · dsimp only
        rw [List.map_cons, ← Multiset.cons_coe, Multiset.cons_add, ← Multiset.add_cons]
        exact isound
      · rcases List.mem_cons.1 hl with rfl | hrest
        · exact hzero
        · rw [← hmem]
          exact izero l hrest

theorem pte_openSlot (s : System) (p q : ℤ) : (openSlot s p).2.pte q = s.pte q := by
  rw [openSlot]
  refine (lookup_graft 3 _ _ p q).trans ?_
  rw [(frame_allocatePageTables (s.stop p) s).1, System.pte]

theorem mem_openSlot (s : System) (p : ℤ) : (openSlot s p).2.mem = s.mem :=
  (frame_allocatePageTables (s.stop p) s).2.1

theorem capacity_le_openSlot (s : System) (p : ℤ) : s.capacity ≤ (openSlot s p).2.capacity :=
  (frame_allocatePageTables (s.stop p) s).2.2.2.2.2.2.2.1

/-- **Adding tables.**  If the pool stays in place, the way down to the page is there afterwards. -/
theorem openSlot_inPlace {s : System} {p : ℤ} (h : InPlace s (openSlot s p).2) :
    (openSlot s p).1 = .linked ∧ (openSlot s p).2.stop p = 0 ∧
      (∀ x, Sound s x → Sound (openSlot s p).2 x) ∧
      (∀ c r t n v, Balanced s c r t n v → Balanced (openSlot s p).2 c r t n v) ∧
      (openSlot s p).2.guestPages = s.guestPages := by
  obtain ⟨h₁, h₂, h₃, h₄, h₅, h₆, h₇, h₈, h₉⟩ := frame_allocatePageTables (s.stop p) s
  have hplace : InPlace s (allocatePageTables (s.stop p) s).2 := h
  have hall := allocatePageTables_inPlace hplace
  have hkept : (allocatePageTables (s.stop p) s).1.takeWhile (·.2) = (allocatePageTables (s.stop p) s).1 :=
    List.takeWhile_eq_self_iff.2 hall
  have heq : openSlot s p = (.linked, { (allocatePageTables (s.stop p) s).2 with
      cr3 := graft 3 ((allocatePageTables (s.stop p) s).1.map (·.1)) (allocatePageTables (s.stop p) s).2.cr3 p }) := by
    rw [openSlot]
    dsimp only
    rw [hkept, if_pos h₉]
  -- what is counted over the tables changes by the new tables only
  have htotal {M : Type} [AddCancelCommMonoid M] (w : ℕ → M) (u : Pte → M) :
      total w u 4 (openSlot s p).2.cr3 =
        total w u 4 s.cr3 + (((allocatePageTables (s.stop p) s).1.map (·.1)).map w).sum := by
    rw [heq, ← h₁]
    refine total_graft 3 _ _ p ?_
    rw [List.length_map, h₉, h₁, System.stop]
  have hzero {M : Type} [AddCancelCommMonoid M] (l : List ℕ) : (l.map fun _ => (0 : M)).sum = 0 :=
    List.sum_eq_zero fun x hx => by
      obtain ⟨_, _, rfl⟩ := List.mem_map.1 hx
      rfl
  have hguest : (openSlot s p).2.guestPages = s.guestPages := by
    have := htotal (fun _ => (0 : Multiset ℕ)) owned
    rwa [hzero, add_zero] at this
  have htables : (openSlot s p).2.tablePages =
      s.tablePages + ((allocatePageTables (s.stop p) s).1.map (·.1) : List ℕ) := by
    have := htotal (fun l => ({l} : Multiset ℕ)) (fun _ => 0)
    rwa [← Multiset.sum_coe, ← Multiset.map_coe, Multiset.sum_map_singleton] at this
  have hcount (f : Pte → ℤ) : (openSlot s p).2.count f = s.count f := by
    have := htotal (fun _ => (0 : ℤ)) f
    rwa [hzero, add_zero] at this
  have hnumber : (openSlot s p).2.tableCount = s.tableCount + s.stop p := by
    have := htotal (fun _ => (1 : ℤ)) (fun _ => 0)
    rwa [List.map_const', List.sum_replicate, nsmul_eq_mul, mul_one, List.length_map, h₉] at this
  refine ⟨by rw [heq], ?_, fun x hx => ?_, fun c r t n v hb => ?_, hguest⟩
  · rw [heq]
    refine (stop_graft 3 _ _ p).trans ?_
    rw [List.length_map, h₉, h₁, System.stop, Nat.sub_self]
  · obtain ⟨hsound, hlabels⟩ := hx.allocatePageTables (s.stop p)
    -- what is held now is what was held, and the new tables
    have hheld : (openSlot s p).2.held + x = (allocatePageTables (s.stop p) s).2.held +
        (((allocatePageTables (s.stop p) s).1.map (·.1) : List ℕ) + x) := by
      rw [System.held, System.held, htables, hguest, System.tablePages, System.guestPages, System.tablePages,
        System.guestPages, h₁, heq]
      abel
    have hfields : (openSlot s p).2.pages = (allocatePageTables (s.stop p) s).2.pages ∧
        (openSlot s p).2.nextPage = (allocatePageTables (s.stop p) s).2.nextPage := by
      rw [heq]
      exact ⟨rfl, rfl⟩
    refine ⟨hheld ▸ hsound.nodup, ?_, ?_, ?_, ?_⟩
    · rw [hfields.2]
      exact fun f hf => hsound.lt f (hheld ▸ hf)
    · rw [hfields.1, mem_openSlot, ← h₂]
      exact hsound.free_zero
    · intro f hf
      rw [mem_openSlot]
      rcases Multiset.mem_add.1 (htables ▸ hf) with hold | hnew
      · exact hx.table_zero f hold
      · obtain ⟨l, hl, rfl⟩ := List.mem_map.1 (Multiset.mem_coe.1 hnew)
        exact hlabels l hl
    · rw [hfields.2, mem_openSlot, ← h₂]
      exact hsound.fresh_zero
  · obtain ⟨b₁, b₂, b₃, b₄, b₅⟩ := hb
    have hc := hcount committedOf
    have hr := hcount reservedOf
    have hv := hcount fun _ => 1
    have hfields : (openSlot s p).2.committed = s.committed ∧ (openSlot s p).2.reserved = s.reserved ∧
        (openSlot s p).2.tables = s.tables + s.stop p ∧ (openSlot s p).2.vss = s.vss ∧
        (openSlot s p).2.rss = s.rss + s.stop p := by
      rw [heq]
      exact ⟨h₃, h₄, h₅, h₆, h₇⟩
    obtain ⟨f₁, f₂, f₃, f₄, f₅⟩ := hfields
    refine ⟨?_, ?_, ?_, ?_, ?_⟩ <;> omega

/-! ### The entry of a page -/

/-- What making an entry leaves as it is. -/
theorem frame_newEntry (prot : Prot) (src : Source) (room : ℤ) (n : ℕ) (s : System) :
    (newEntry prot src room n s).2.cr3 = s.cr3 ∧ (newEntry prot src room n s).2.committed = s.committed ∧
      (newEntry prot src room n s).2.reserved = s.reserved ∧ (newEntry prot src room n s).2.tables = s.tables ∧
      (newEntry prot src room n s).2.vss = s.vss ∧ (newEntry prot src room n s).2.rss = s.rss ∧
      s.capacity ≤ (newEntry prot src room n s).2.capacity ∧
      reservedOf (newEntry prot src room n s).1 = 1 ∧ (newEntry prot src room n s).1.prot = prot := by
  cases src with
  | anonymous => exact ⟨rfl, rfl, rfl, rfl, rfl, rfl, le_rfl, rfl, rfl⟩
  | shared => exact ⟨rfl, rfl, rfl, rfl, rfl, rfl, le_growTo _ _, rfl, rfl⟩
  | file contents offset => exact ⟨rfl, rfl, rfl, rfl, rfl, rfl, le_growTo _ _, rfl, rfl⟩

theorem Sound.allocateBig {s : System} {x : Multiset ℕ} (bytes : Page) (h : Sound s x) :
    Sound (allocateBig bytes s).2 ((allocateBig bytes s).1 ::ₘ x) ∧
      ∀ f, f < s.nextPage → (AddressSpace.allocateBig bytes s).2.mem f = s.mem f := by
  have hmem (f : ℕ) (hf : f < s.nextPage) : (AddressSpace.allocateBig bytes s).2.mem f = s.mem f :=
    Function.update_of_ne (by omega) _ _
  have hheld : (AddressSpace.allocateBig bytes s).2.held + ((AddressSpace.allocateBig bytes s).1 ::ₘ x) =
      s.nextPage ::ₘ (s.held + x) := by
    rw [Multiset.add_cons]
    rfl
  refine ⟨⟨?_, ?_, ?_, ?_, ?_⟩, hmem⟩
  · refine hheld ▸ Multiset.nodup_cons.2 ⟨fun hin => ?_, h.nodup⟩
    exact absurd (h.lt _ hin) (lt_irrefl _)
  · intro f hf
    rcases Multiset.mem_cons.1 (hheld ▸ hf) with rfl | hold
    · exact Nat.lt_succ_self s.nextPage
    · exact Nat.lt_succ_of_lt (h.lt f hold)
  · intro f hf
    have hlt : f < s.nextPage := h.lt f (Multiset.mem_add.2 (.inl (Multiset.mem_add.2 (.inr hf))))
    rw [hmem f hlt]
    exact h.free_zero f hf
  · intro f hf
    have hlt : f < s.nextPage := h.lt f
      (Multiset.mem_add.2 (.inl (Multiset.mem_add.2 (.inl (Multiset.mem_add.2 (.inl hf))))))
    rw [hmem f hlt]
    exact h.table_zero f hf
  · intro f hf
    have hle : s.nextPage + 1 ≤ f := hf
    exact (Function.update_of_ne (by omega) _ _).trans (h.fresh_zero f (by omega))

/-- The bytes that an entry is made with. -/
theorem data_newEntry (prot : Prot) (src : Source) (room : ℤ) (n : ℕ) (s : System) :
    (newEntry prot src room n s).1.backing.data (newEntry prot src room n s).2.mem = src.page room n := by
  cases src with
  | anonymous => rfl
  | shared => exact Function.update_self _ _ _
  | file contents offset => exact Function.update_self _ _ _

theorem Sound.newEntry {s : System} {x : Multiset ℕ} (prot : Prot) (src : Source) (room : ℤ) (n : ℕ)
    (h : Sound s x) : Sound (newEntry prot src room n s).2 (owned (newEntry prot src room n s).1 + x) ∧
      ∀ f, f < s.nextPage → (AddressSpace.newEntry prot src room n s).2.mem f = s.mem f := by
  cases src with
  | anonymous =>
      refine ⟨?_, fun _ _ => rfl⟩
      change Sound s (0 + x)
      rwa [zero_add]
  | shared =>
      obtain ⟨hsound, hmem⟩ := h.allocateBig (Source.shared.page room n)
      refine ⟨?_, hmem⟩
      rw [← Multiset.singleton_add] at hsound
      exact hsound
  | file contents offset =>
      obtain ⟨hsound, hmem⟩ := h.allocateBig ((Source.file contents offset).page room n)
      refine ⟨?_, hmem⟩
      rw [← Multiset.singleton_add] at hsound
      exact hsound

/-! ### Replacing an entry -/

/-- An entry is stored where the last table is there, and the one that was there is freed. -/
def replacePte (s : System) (p : ℤ) (e : Pte) : System :=
  ((s.pte p).map fun old => freePage old (s.storePte p (some e))).getD (s.storePte p (some e))

section Replace

variable {s : System} {p : ℤ} {e : Pte}

theorem replacePte_of_none (h : s.pte p = none) : replacePte s p e = s.storePte p (some e) := by
  rw [replacePte, h]
  rfl

theorem replacePte_of_some {old : Pte} (h : s.pte p = some old) :
    replacePte s p e = freePage old (s.storePte p (some e)) := by
  rw [replacePte, h]
  rfl

theorem cr3_replacePte : (replacePte s p e).cr3 = (s.storePte p (some e)).cr3 := by
  cases h : s.pte p with
  | none => rw [replacePte_of_none h]
  | some old => rw [replacePte_of_some h, cr3_freePage]

theorem stop_replacePte (q : ℤ) : (replacePte s p e).stop q = s.stop q := by
  rw [System.stop, cr3_replacePte]
  exact stop_storePte s p q _

theorem pte_replacePte_self {q : ℤ} (hstop : s.stop p = 0) (hq : Same p q) : (replacePte s p e).pte q = some e := by
  rw [System.pte, cr3_replacePte]
  exact pte_storePte_self s hstop hq

theorem pte_replacePte_of_not_same {q : ℤ} (hq : ¬ Same p q) : (replacePte s p e).pte q = s.pte q := by
  rw [System.pte, cr3_replacePte]
  exact pte_storePte_of_not_same s hq

theorem Sound.replacePte {x : Multiset ℕ} (hstop : s.stop p = 0) (h : Sound s (owned e + x)) :
    Sound (replacePte s p e) x := by
  have hstore := Sound.storePte (some e) hstop h
  cases hp : s.pte p with
  | none =>
      rw [hp, weight_none, zero_add] at hstore
      rwa [replacePte_of_none hp]
  | some old =>
      rw [hp, weight_some] at hstore
      rw [replacePte_of_some hp]
      exact hstore.freePage

/-- The memory of the guest's pages is left as it is. -/
theorem mem_replacePte {x : Multiset ℕ} (hstop : s.stop p = 0) (h : Sound s (owned e + x)) :
    ∀ f ∈ (replacePte s p e).guestPages, (replacePte s p e).mem f = s.mem f := by
  have hstore := Sound.storePte (some e) hstop h
  intro f hf
  cases hp : s.pte p with
  | none => rw [replacePte_of_none hp]; rfl
  | some old =>
      rw [replacePte_of_some hp, guestPages_freePage] at hf
      rw [hp, weight_some] at hstore
      rw [replacePte_of_some hp, mem_freePage hstore hf]
      rfl

theorem Balanced.replacePte {c r t h v : ℤ} (hstop : s.stop p = 0) (hb : Balanced s c r t h v) :
    Balanced (replacePte s p e) (c - committedOf e) (r - reservedOf e) t h
      (v - 1 + weight (fun _ => 1) (s.pte p)) := by
  have hstore := hb.storePte (some e) hstop
  rw [weight_some, weight_some, weight_some] at hstore
  cases hp : s.pte p with
  | none =>
      rw [hp] at hstore
      simp only [weight_none, add_zero] at hstore ⊢
      rwa [replacePte_of_none hp]
  | some old =>
      rw [hp] at hstore
      simp only [weight_some] at hstore ⊢
      rw [replacePte_of_some hp]
      refine Balanced.freePage (e := old) ?_
      have hc : c - committedOf e + committedOf old = c + committedOf old - committedOf e := by ring
      have hr : r - reservedOf e + reservedOf old = r + reservedOf old - reservedOf e := by ring
      have hv : v - 1 + 1 = v + 1 - 1 := by ring
      rw [hc, hr, hv]
      exact hstore

end Replace

/-! ### The pages of a mapping -/

section Mapping

variable {prot : Prot} {src : Source} {first size : ℤ}

theorem reservePage_linked {room p : ℤ} {n : ℕ} {s : System} (h : InPlace s (newEntry prot src room n s).2) :
    reservePage prot src room n .linked p s =
      (.linked, replacePte (newEntry prot src room n s).2 p (newEntry prot src room n s).1) := by
  have hslot : (if Slot.linked = .linked ∧ ¬ InPlace s (newEntry prot src room n s).2 then .stale
      else Slot.linked) = .linked := if_neg fun hmoved => hmoved.2 h
  rw [reservePage]
  dsimp only
  rw [hslot]
  rfl

theorem capacity_freeOld (old : Option Pte) (s : System) :
    ((old.map fun e => freePage e s).getD s).capacity = s.capacity := by
  cases old with
  | none => rfl
  | some e => exact capacity_freePage e s

theorem capacity_reservePage (room p : ℤ) (n : ℕ) (slot : Slot) (s : System) :
    (reservePage prot src room n slot p s).2.capacity = (newEntry prot src room n s).2.capacity := by
  rw [reservePage]
  dsimp only
  rw [capacity_freeOld]
  split <;> split <;> rfl

/-- The state in which a round makes its entry. -/
def opened (first : ℤ) (n : ℕ) (st : Slot × System) : Slot × System :=
  if n = 0 ∨ (first + n) % 512 = 0 then openSlot st.2 (first + n) else st

theorem reserveStep_eq (n : ℕ) (st : Slot × System) :
    reserveStep prot src first size n st =
      reservePage prot src (size - 4096 * n) n (opened first n st).1 (first + n) (opened first n st).2 := rfl

theorem capacity_le_opened (n : ℕ) (st : Slot × System) : st.2.capacity ≤ (opened first n st).2.capacity := by
  rw [opened]
  split
  · exact capacity_le_openSlot _ _
  · exact le_rfl

theorem capacity_le_newEntry (room : ℤ) (n : ℕ) (s : System) :
    s.capacity ≤ (newEntry prot src room n s).2.capacity :=
  (frame_newEntry prot src room n s).2.2.2.2.2.2.1

theorem capacity_le_reserveStep (n : ℕ) (st : Slot × System) :
    st.2.capacity ≤ (reserveStep prot src first size n st).2.capacity := by
  rw [reserveStep_eq, capacity_reservePage]
  exact (capacity_le_opened n st).trans (capacity_le_newEntry _ n _)

/-- What the first rounds have made, if the pool stays in place. -/
structure Made (prot : Prot) (src : Source) (first size : ℤ) (s₀ : System) (n : ℕ) (st : Slot × System) :
    Prop where
  slot : n ≠ 0 → st.1 = .linked ∧ st.2.stop (first + n - 1) = 0
  sound : ∀ x, Sound s₀ x → Sound st.2 x
  balanced : ∀ c r t h v, Balanced s₀ c r t h v →
    Balanced st.2 c (r - n) t h (v - n + (List.range n).countP fun i : ℕ => (s₀.pte (first + i)).isSome)
  inside : ∀ i : ℕ, i < n → st.2.view (first + i) = some (prot, src.page (size - 4096 * i) i)
  outside : ∀ q, (∀ i : ℕ, i < n → ¬ Same (first + i) q) →
    st.2.pte q = s₀.pte q ∧ ∀ x, Sound s₀ x → st.2.view q = s₀.view q

/-- Before a page, the way down to its last table is there. -/
theorem Made.linked {s₀ : System} {n : ℕ} {st : Slot × System} (h : Made prot src first size s₀ n st)
    (hplace : InPlace st.2 (opened first n st).2) :
    (opened first n st).1 = .linked ∧ (opened first n st).2.stop (first + n) = 0 := by
  rw [AddressSpace.opened] at hplace ⊢
  split at hplace
  · rename_i hnew
    rw [if_pos hnew]
    obtain ⟨h₁, h₂, -⟩ := openSlot_inPlace hplace
    exact ⟨h₁, h₂⟩
  · rename_i hold
    rw [if_neg hold]
    rw [not_or] at hold
    obtain ⟨h₁, h₂⟩ := h.slot hold.1
    refine ⟨h₁, (stop_eq_zero_congr (agree_of_div_eq ?_ 4)).1 h₂⟩
    have hcast : ((512 : ℕ) : ℤ) ^ 1 = 512 := rfl
    rw [hcast]
    omega

theorem view_openSlot (s : System) (p q : ℤ) : (openSlot s p).2.view q = s.view q := by
  rw [System.view, pte_openSlot, mem_openSlot, System.view]

/-- What opening a table does, if the pool stays in place. -/
theorem opened_inPlace {n : ℕ} {st : Slot × System} (h : InPlace st.2 (opened first n st).2) :
    (∀ x, Sound st.2 x → Sound (opened first n st).2 x) ∧
      (∀ c r t n' v, Balanced st.2 c r t n' v → Balanced (opened first n st).2 c r t n' v) ∧
      (∀ q, (opened first n st).2.pte q = st.2.pte q) ∧ ∀ q, (opened first n st).2.view q = st.2.view q := by
  rw [opened] at h ⊢
  split at h
  · rename_i hnew
    rw [if_pos hnew]
    obtain ⟨-, -, h₃, h₄, -⟩ := openSlot_inPlace h
    exact ⟨h₃, h₄, pte_openSlot _ _, view_openSlot _ _⟩
  · rename_i hold
    rw [if_neg hold]
    exact ⟨fun _ hx => hx, fun _ _ _ _ _ hb => hb, fun _ => rfl, fun _ => rfl⟩

/-- Making an entry leaves the other pages alone. -/
theorem view_newEntry {s : System} {x : Multiset ℕ} (room : ℤ) (n : ℕ) (h : Sound s x) (q : ℤ) :
    (newEntry prot src room n s).2.view q = s.view q := by
  have hcr3 := (frame_newEntry prot src room n s).1
  refine view_congr (by rw [System.pte, hcr3, System.pte]) fun f hf => (h.newEntry prot src room n).2 f ?_
  refine h.lt f (Multiset.mem_add.2 (.inl (Multiset.mem_add.2 (.inl (Multiset.mem_add.2 (.inr ?_))))))
  rwa [System.guestPages, hcr3] at hf

/-- A round in which the pool stays in place. -/
theorem Made.next {s₀ : System} {n : ℕ} {st : Slot × System} (h : Made prot src first size s₀ n st)
    (hplace : InPlace st.2 (reserveStep prot src first size n st).2) (hn : (n : ℤ) < 2 ^ 36)
    (hsound₀ : Sound s₀ 0) : Made prot src first size s₀ (n + 1) (reserveStep prot src first size n st) := by
  have hle₁ : st.2.capacity ≤ (opened first n st).2.capacity := capacity_le_opened n st
  have hle₂ : (opened first n st).2.capacity ≤
      (newEntry prot src (size - 4096 * n) n (opened first n st).2).2.capacity := capacity_le_newEntry _ n _
  have hcap : (newEntry prot src (size - 4096 * n) n (opened first n st).2).2.capacity = st.2.capacity := by
    rw [reserveStep_eq, InPlace, capacity_reservePage] at hplace
    exact hplace
  have hplace₁ : InPlace st.2 (opened first n st).2 := le_antisymm (hle₂.trans hcap.le) hle₁
  have hplace₂ : InPlace (opened first n st).2 (newEntry prot src (size - 4096 * n) n (opened first n st).2).2 :=
    hcap.trans (le_antisymm hle₁ (hle₂.trans hcap.le))
  obtain ⟨hlinked, hstop⟩ := h.linked hplace₁
  obtain ⟨osound, obalanced, opte, oview⟩ := opened_inPlace hplace₁
  obtain ⟨s₁, hs₁⟩ : ∃ s₁, s₁ = (opened first n st).2 := ⟨_, rfl⟩
  have hstep : reserveStep prot src first size n st =
      (.linked, replacePte (newEntry prot src (size - 4096 * n) n s₁).2 (first + n)
        (newEntry prot src (size - 4096 * n) n s₁).1) := by
    rw [reserveStep_eq, hlinked, hs₁, reservePage_linked hplace₂]
  rw [← hs₁] at hstop osound obalanced opte oview
  obtain ⟨f₁, f₂, f₃, f₄, f₅, f₆, -, f₈, f₉⟩ := frame_newEntry prot src (size - 4096 * n) n s₁
  obtain ⟨s₂, hs₂⟩ : ∃ s₂, s₂ = (newEntry prot src (size - 4096 * n) n s₁).2 := ⟨_, rfl⟩
  obtain ⟨e, he⟩ : ∃ e, e = (newEntry prot src (size - 4096 * n) n s₁).1 := ⟨_, rfl⟩
  have hdata : e.backing.data s₂.mem = src.page (size - 4096 * n) n := by
    rw [he, hs₂, data_newEntry]
  have hstop₂ : s₂.stop (first + n) = 0 := by rw [System.stop, hs₂, f₁]; exact hstop
  have hpte₂ (q : ℤ) : s₂.pte q = s₁.pte q := by rw [System.pte, hs₂, f₁, System.pte]
  have hsound₂ (x : Multiset ℕ) (hx : Sound s₀ x) : Sound s₂ (owned e + x) := by
    rw [hs₂, he]
    exact ((osound x (h.sound x hx)).newEntry prot src _ n).1
  have hview₂ (q : ℤ) : s₂.view q = st.2.view q := by
    rw [hs₂, view_newEntry _ n (osound 0 (h.sound 0 hsound₀)) q, oview]
  rw [← hs₂, ← he] at hstep
  rw [hstep]
  -- the entries of the other pages are as before
  have hother (q : ℤ) (hq : ¬ Same (first + n) q) :
      (replacePte s₂ (first + n) e).pte q = st.2.pte q ∧ (replacePte s₂ (first + n) e).view q = st.2.view q := by
    have hpte : (replacePte s₂ (first + n) e).pte q = s₂.pte q := pte_replacePte_of_not_same hq
    refine ⟨by rw [hpte, hpte₂, opte], ?_⟩
    rw [view_congr hpte (mem_replacePte hstop₂ (hsound₂ 0 hsound₀)), hview₂]
  refine ⟨fun _ => ⟨rfl, ?_⟩, fun x hx => (hsound₂ x hx).replacePte hstop₂, ?_, ?_, ?_⟩
  · have hpred : first + ((n + 1 : ℕ) : ℤ) - 1 = first + n := by push_cast; ring
    rw [hpred]
    exact (stop_replacePte _).trans hstop₂
  · intro c r t n' v hb
    have hb₁ := obalanced _ _ _ _ _ (h.balanced _ _ _ _ _ hb)
    have hb₂ : Balanced s₂ c (r - n) t n' (v - n + (List.range n).countP fun i : ℕ => (s₀.pte (first + i)).isSome) := by
      obtain ⟨b₁, b₂, b₃, b₄, b₅⟩ := hb₁
      have hcount (f : Pte → ℤ) : s₂.count f = s₁.count f := by rw [System.count, hs₂, f₁, System.count]
      have htables : s₂.tableCount = s₁.tableCount := by rw [System.tableCount, hs₂, f₁, System.tableCount]
      have hc := hcount committedOf
      have hr := hcount reservedOf
      have hv := hcount fun _ => 1
      rw [← hs₂] at f₂ f₃ f₄ f₅ f₆
      refine ⟨?_, ?_, ?_, ?_, ?_⟩ <;> omega
    have hb₃ := hb₂.replacePte (p := first + n) (e := e) hstop₂
    have hreserved : reservedOf e = 1 := he ▸ f₈
    have hcommitted : committedOf e = 0 := by
      rw [reservedOf] at hreserved
      omega
    have hold : s₂.pte (first + n) = s₀.pte (first + n) := by
      rw [hpte₂, opte]
      exact (h.outside _ fun i hi => not_same (by omega) (by omega)).1
    have hcount : (((List.range (n + 1)).countP fun i : ℕ => (s₀.pte (first + i)).isSome : ℕ) : ℤ) =
        ((List.range n).countP fun i : ℕ => (s₀.pte (first + i)).isSome : ℕ) +
          weight (fun _ => 1) (s₀.pte (first + n)) := by
      rw [List.range_succ, List.countP_append, List.countP_singleton]
      cases s₀.pte (first + n) <;> simp
    have hr : r - ((n + 1 : ℕ) : ℤ) = r - n - 1 := by push_cast; ring
    have hv (w : ℤ) : v - ((n + 1 : ℕ) : ℤ) + (((List.range n).countP fun i : ℕ =>
        (s₀.pte (first + i)).isSome : ℕ) + w) = v - n + ((List.range n).countP fun i : ℕ =>
          (s₀.pte (first + i)).isSome : ℕ) - 1 + w := by push_cast; ring
    rw [hcommitted, hreserved, hold, sub_zero] at hb₃
    rwa [hcount, hr, hv]
  · intro i hi
    rcases Nat.lt_succ_iff_lt_or_eq.1 hi with hlt | rfl
    · rw [(hother _ fun hsame => not_same (p := first + i) (q := first + n) (by omega) (by omega) hsame.symm).2]
      exact h.inside i hlt
    · rw [view_of_pte (pte_replacePte_self hstop₂ (Agree.refl 0 4 _)),
        data_congr fun f hf => mem_replacePte hstop₂ (hsound₂ 0 hsound₀) f ?_, hdata]
      · rw [he, f₉]
      · exact Multiset.mem_of_le (owned_le_guestPages _ (pte_replacePte_self hstop₂ (Agree.refl 0 4 _))) hf
  · intro q hq
    obtain ⟨hpte, hview⟩ := hother q (hq n (Nat.lt_succ_self n))
    obtain ⟨hpte', hview'⟩ := h.outside q fun i hi => hq i (Nat.lt_succ_of_lt hi)
    exact ⟨hpte.trans hpte', fun x hx => hview.trans (hview' x hx)⟩

theorem made_zero (s₀ : System) : Made prot src first size s₀ 0 (.linked, s₀) where
  slot h := absurd rfl h
  sound _ hx := hx
  balanced c r t h v hb := by simpa using hb
  inside _ hi := absurd hi (Nat.not_lt_zero _)
  outside _ _ := ⟨rfl, fun _ _ => rfl⟩

theorem capacity_mono_reservePages (st : Slot × System) {m n : ℕ} (h : m ≤ n) :
    (reservePages prot src first size m st).2.capacity ≤ (reservePages prot src first size n st).2.capacity := by
  induction n, h using Nat.le_induction with
  | base => exact le_rfl
  | succ k _ ih => exact ih.trans (capacity_le_reserveStep k _)

theorem capacity_le_reservePages (n : ℕ) (st : Slot × System) :
    st.2.capacity ≤ (reservePages prot src first size n st).2.capacity :=
  capacity_mono_reservePages st (Nat.zero_le n)

/-- The pages of a mapping, if the pool stays in place. -/
theorem made_reservePages {s₀ : System} (hsound₀ : Sound s₀ 0) {n : ℕ} (hn : (n : ℤ) ≤ 2 ^ 36)
    (hplace : InPlace s₀ (reservePages prot src first size n (.linked, s₀)).2) :
    Made prot src first size s₀ n (reservePages prot src first size n (.linked, s₀)) := by
  induction n with
  | zero => exact made_zero s₀
  | succ n ih =>
      have hle₁ : s₀.capacity ≤ (reservePages prot src first size n (.linked, s₀)).2.capacity :=
        capacity_le_reservePages n (.linked, s₀)
      have hle₂ : (reservePages prot src first size n (.linked, s₀)).2.capacity ≤
          (reserveStep prot src first size n (reservePages prot src first size n (.linked, s₀))).2.capacity :=
        capacity_le_reserveStep n _
      have hcap : (reserveStep prot src first size n (reservePages prot src first size n (.linked, s₀))).2.capacity =
          s₀.capacity := hplace
      have hplace₁ : InPlace s₀ (reservePages prot src first size n (.linked, s₀)).2 :=
        le_antisymm (hle₂.trans hcap.le) hle₁
      have hmade := ih (by push_cast at hn; omega) hplace₁
      exact hmade.next (hcap.trans hplace₁.symm) (by push_cast at hn; omega) hsound₀

/-- The number of pages of a range that `RemoveVirtual` leaves mapped. -/
def leftover (s : System) (p e : ℤ) : ℕ :=
  (List.range (e - p).toNat).countP fun i : ℕ => ((removeVirtual s p p e).pte (p + i)).isSome

theorem leftover_eq_zero {s : System} {p e : ℤ} (h : Vacant (removeVirtual s p p e) p e) : leftover s p e = 0 := by
  refine List.countP_eq_zero.2 fun i hi => ?_
  have hlt := List.mem_range.1 hi
  rw [h _ (by omega) (by omega)]
  decide

end Mapping

/-- What a mapping does, if the pool stays in place. -/
structure Maps (s s' : System) (p size : ℤ) (prot : Prot) (src : Source) : Prop where
  sound : Sound s' 0
  balanced : ∀ c r t h v, Balanced s c r t h v → Balanced s' c r t h (v + leftover s p (p + pagesOf size))
  inside : ∀ i : ℕ, (i : ℤ) < pagesOf size → s'.view (p + i) = some (prot, src.page (size - 4096 * i) i)
  outside : ∀ q, (∀ i : ℕ, (i : ℤ) < pagesOf size → ¬ Same (p + i) q) → s'.view q = s.view q

/-- **A mapping shows what was asked for, and leaves the other pages alone.** -/
theorem maps_mapRange {s : System} {p size : ℤ} (prot : Prot) (src : Source) (hsound : Sound s 0) (hsize : 0 < size)
    (hspan : pagesOf size ≤ 2 ^ 36) (hplace : InPlace s (mapRange s p size prot src)) :
    Maps s (mapRange s p size prot src) p size prot src := by
  have hpages := le_pagesOf_mul size
  obtain ⟨n, hn⟩ : ∃ n : ℕ, n = (pagesOf size).toNat := ⟨_, rfl⟩
  obtain ⟨s₁, hs₁⟩ : ∃ s₁, s₁ = removeVirtual s p p (p + pagesOf size) := ⟨_, rfl⟩
  obtain ⟨s₂, hs₂⟩ : ∃ s₂ : System, s₂ = { s₁ with
      vss := s₁.vss + pagesOf size, reserved := s₁.reserved + pagesOf size } := ⟨_, rfl⟩
  have hmap : mapRange s p size prot src = (reservePages prot src p size n (.linked, s₂)).2 := by
    rw [mapRange, hs₂, hs₁, hn]
  have hgives := gives_removeVirtual (p + pagesOf size) (Run.start s p)
  rw [← hs₁] at hgives
  have hsound₂ : Sound s₂ 0 := by
    rw [hs₂]
    exact (hgives.sound 0 hsound).congr rfl rfl rfl rfl
  have hcapacity : s₂.capacity = s.capacity := by rw [hs₂]; exact hgives.capacity
  have hpte₂ (q : ℤ) : s₂.pte q = s₁.pte q := by rw [hs₂]; rfl
  rw [hmap] at hplace ⊢
  have hmade := made_reservePages hsound₂ (n := n) (by omega) (hplace.trans hcapacity.symm)
  refine ⟨hmade.sound 0 hsound₂, fun c r t h v hb => ?_, fun i hi => hmade.inside i (by omega), fun q hq => ?_⟩
  · have hb₁ := hgives.balanced c r t h v hb
    have hb₂ : Balanced s₂ c (r + n) t h (v + n) := by
      obtain ⟨b₁, b₂, b₃, b₄, b₅⟩ := hb₁
      rw [hs₂]
      refine ⟨b₁, ?_, b₃, b₄, ?_⟩
      · change s₁.reserved + pagesOf size = s₁.count reservedOf + (r + n)
        omega
      · change s₁.vss + pagesOf size = s₁.count (fun _ => 1) + (v + n)
        omega
    -- the entries that are left over are those that the loop finds
    have hleft : leftover s p (p + pagesOf size) =
        (List.range n).countP fun i : ℕ => (s₂.pte (p + i)).isSome := by
      rw [leftover, hn, add_sub_cancel_left]
      simp only [hpte₂, hs₁]
    have hb₃ := hmade.balanced _ _ _ _ _ hb₂
    rw [hleft]
    simpa only [add_sub_cancel_right] using hb₃
  · obtain ⟨-, hview⟩ := hmade.outside q fun i hi => hq i (by omega)
    have hpte₁ : s₁.pte q = s.pte q := by
      rw [hs₁]
      refine pte_removeVirtual_of_outside (Run.start s p) fun r h₁ h₂ => ?_
      have := hq (r - p).toNat (by omega)
      rwa [Int.toNat_of_nonneg (by omega), add_sub_cancel] at this
    rw [hview 0 hsound₂, ← hgives.view hsound hpte₁]
    exact view_congr (hpte₂ q) fun f _ => by rw [hs₂]

/-! ### When the pool moves -/

section Moving

variable {prot : Prot} {src : Source} {first size : ℤ}

/-- If each of the tables was kept, the pool stayed in place. -/
theorem inPlace_allocatePageTables {k : ℕ} {s : System} (h : ∀ l ∈ (allocatePageTables k s).1, l.2 = true) :
    InPlace s (allocatePageTables k s).2 := by
  induction k generalizing s with
  | zero => rfl
  | succ k ih =>
      have hfirst : InPlace s (allocatePageTable s).2 := of_decide_eq_true (h _ List.mem_cons_self)
      have hrest : InPlace (allocatePageTable s).2 (allocatePageTables k (allocatePageTable s).2).2 :=
        ih fun l hl => h l (List.mem_cons_of_mem _ hl)
      exact hrest.trans hfirst

/-- The way down is there if and only if the pool stays in place. -/
theorem openSlot_linked_iff (s : System) (p : ℤ) : (openSlot s p).1 = .linked ↔ InPlace s (openSlot s p).2 := by
  constructor
  · intro h
    have hlength : ((allocatePageTables (s.stop p) s).1.takeWhile (·.2)).length = s.stop p := by
      by_contra hne
      rw [openSlot] at h
      dsimp only at h
      rw [if_neg hne] at h
      cases h
    have hall : (allocatePageTables (s.stop p) s).1.takeWhile (·.2) = (allocatePageTables (s.stop p) s).1 := by
      refine (List.takeWhile_prefix _).eq_of_length ?_
      rw [hlength, (frame_allocatePageTables (s.stop p) s).2.2.2.2.2.2.2.2]
    exact inPlace_allocatePageTables (List.takeWhile_eq_self_iff.1 hall)
  · exact fun h => (openSlot_inPlace h).1

theorem reservePage_linked_iff (room p : ℤ) (n : ℕ) (slot : Slot) (s : System) :
    (reservePage prot src room n slot p s).1 = .linked ↔
      slot = .linked ∧ InPlace s (reservePage prot src room n slot p s).2 := by
  rw [InPlace, capacity_reservePage, reservePage]
  dsimp only
  split
  · rename_i h
    exact iff_of_false (by decide) fun hboth => h.2 hboth.2
  · rename_i h
    refine ⟨fun hl => ⟨hl, ?_⟩, fun hboth => hboth.1⟩
    by_contra hne
    exact h ⟨hl, hne⟩

/-- A round changes the entry of its own page at most, and does so if the slot is linked. -/
theorem pte_reservePage (room p : ℤ) (n : ℕ) (slot : Slot) (s : System) (q : ℤ) :
    (reservePage prot src room n slot p s).2.pte q =
      if (reservePage prot src room n slot p s).1 = .linked then
        (s.storePte p (some (newEntry prot src room n s).1)).pte q
      else s.pte q := by
  have hcr3 := (frame_newEntry prot src room n s).1
  have hfree (old : Option Pte) (s : System) : ((old.map fun e => freePage e s).getD s).pte q = s.pte q := by
    cases old with
    | none => rfl
    | some e => exact pte_freePage s e q
  rw [reservePage]
  dsimp only
  rw [hfree]
  by_cases h : (if slot = .linked ∧ ¬ InPlace s (newEntry prot src room n s).2 then Slot.stale else slot) = .linked
  · rw [if_pos h, if_pos h, System.pte, System.storePte, hcr3]
    rfl
  · rw [if_neg h, if_neg h, System.pte, hcr3, System.pte]

theorem stop_reservePage (room p : ℤ) (n : ℕ) (slot : Slot) (s : System) (q : ℤ) :
    (reservePage prot src room n slot p s).2.stop q = s.stop q := by
  have hcr3 := (frame_newEntry prot src room n s).1
  have hfree (old : Option Pte) (s : System) : ((old.map fun e => freePage e s).getD s).stop q = s.stop q := by
    cases old with
    | none => rfl
    | some e => exact stop_freePage s e q
  rw [reservePage]
  dsimp only
  rw [hfree]
  split <;> split
  all_goals first
    | (rw [stop_storePte, System.stop, hcr3, System.stop])
    | (rw [System.stop, hcr3, System.stop])

/-- The round at which the way down to the table of a page was taken. -/
def opening (first : ℤ) (i : ℕ) : ℕ := i - ((first + i) % 512).toNat

theorem opening_of_new {n : ℕ} (h : n = 0 ∨ (first + n) % 512 = 0) : opening first n = n := by
  rw [opening]
  rcases h with rfl | h
  · exact Nat.zero_sub _
  · rw [h]
    rfl

theorem opening_succ {n : ℕ} (h : (first + (n + 1 : ℕ)) % 512 ≠ 0) : opening first (n + 1) = opening first n := by
  rw [opening, opening]
  push_cast at h ⊢
  omega

theorem opening_le (n : ℕ) : opening first n ≤ n := Nat.sub_le _ _

/-- A slot that is linked lies in a table that is there. -/
theorem stop_of_linked {s₀ : System} {n : ℕ}
    (h : (reservePages prot src first size (n + 1) (.linked, s₀)).1 = .linked) :
    (opened first n (reservePages prot src first size n (.linked, s₀))).2.stop (first + n) = 0 := by
  induction n with
  | zero =>
      have hopened := ((reservePage_linked_iff _ _ _ _ _).1 h).1
      change (opened first 0 _).1 = .linked at hopened
      rw [opened, if_pos (.inl rfl)] at hopened ⊢
      exact (openSlot_inPlace ((openSlot_linked_iff _ _).1 hopened)).2.1
  | succ n ih =>
      have hopened := ((reservePage_linked_iff _ _ _ _ _).1 h).1
      by_cases hnew : n + 1 = 0 ∨ (first + (n + 1 : ℕ)) % 512 = 0
      · change (opened first (n + 1) _).1 = .linked at hopened
        rw [opened, if_pos hnew] at hopened ⊢
        exact (openSlot_inPlace ((openSlot_linked_iff _ _).1 hopened)).2.1
      · change (opened first (n + 1) _).1 = .linked at hopened
        rw [opened, if_neg hnew] at hopened ⊢
        have hstop : (reservePages prot src first size (n + 1) (.linked, s₀)).2.stop (first + n) = 0 :=
          (stop_reservePage _ _ _ _ _ _).trans (ih hopened)
        rw [not_or] at hnew
        refine (stop_eq_zero_congr (agree_of_div_eq ?_ 4)).1 hstop
        have hcast : ((512 : ℕ) : ℤ) ^ 1 = 512 := rfl
        have hsucc : ((n + 1 : ℕ) : ℤ) = n + 1 := Nat.cast_succ n
        rw [hcast]
        omega

/-- **When the slot of a page is linked**: the pool stayed in place since the way down to its table was taken. -/
theorem linked_iff (s₀ : System) (n : ℕ) :
    (reservePages prot src first size (n + 1) (.linked, s₀)).1 = .linked ↔
      InPlace (reservePages prot src first size (opening first n) (.linked, s₀)).2
        (reservePages prot src first size (n + 1) (.linked, s₀)).2 := by
  have hstep (n : ℕ) : (reservePages prot src first size (n + 1) (.linked, s₀)).1 = .linked ↔
      (opened first n (reservePages prot src first size n (.linked, s₀))).1 = .linked ∧
        InPlace (opened first n (reservePages prot src first size n (.linked, s₀))).2
          (reservePages prot src first size (n + 1) (.linked, s₀)).2 := reservePage_linked_iff _ _ n _ _
  have hle₁ (n : ℕ) : (reservePages prot src first size n (.linked, s₀)).2.capacity ≤
      (opened first n (reservePages prot src first size n (.linked, s₀))).2.capacity := capacity_le_opened n _
  have hle₂ (n : ℕ) : (opened first n (reservePages prot src first size n (.linked, s₀))).2.capacity ≤
      (reservePages prot src first size (n + 1) (.linked, s₀)).2.capacity := by
    change _ ≤ (reservePage _ _ _ _ _ _ _).2.capacity
    rw [capacity_reservePage]
    exact capacity_le_newEntry _ _ _
  -- where the way down is taken anew, the pool counts from there
  have hfresh (n : ℕ) (hnew : n = 0 ∨ (first + n) % 512 = 0) :
      (reservePages prot src first size (n + 1) (.linked, s₀)).1 = .linked ↔
        InPlace (reservePages prot src first size (opening first n) (.linked, s₀)).2
          (reservePages prot src first size (n + 1) (.linked, s₀)).2 := by
    have hopened : opened first n (reservePages prot src first size n (.linked, s₀)) =
        openSlot (reservePages prot src first size n (.linked, s₀)).2 (first + n) := if_pos hnew
    refine (hstep n).trans ?_
    rw [opening_of_new hnew]
    have hslot := openSlot_linked_iff (reservePages prot src first size n (.linked, s₀)).2 (first + n)
    rw [← hopened] at hslot
    rw [hslot]
    constructor
    · exact fun h => h.2.trans h.1
    · intro h
      have heq : (opened first n (reservePages prot src first size n (.linked, s₀))).2.capacity =
          (reservePages prot src first size n (.linked, s₀)).2.capacity :=
        le_antisymm ((hle₂ n).trans h.le) (hle₁ n)
      exact ⟨heq, h.trans heq.symm⟩
  induction n with
  | zero => exact hfresh 0 (.inl rfl)
  | succ n ih =>
      by_cases hnew : n + 1 = 0 ∨ (first + (n + 1 : ℕ)) % 512 = 0
      · exact hfresh (n + 1) hnew
      · have hopened : opened first (n + 1) (reservePages prot src first size (n + 1) (.linked, s₀)) =
            reservePages prot src first size (n + 1) (.linked, s₀) := if_neg hnew
        have hle := hle₂ (n + 1)
        have hnext := hstep (n + 1)
        rw [hopened] at hle hnext
        refine hnext.trans ?_
        rw [opening_succ fun h => hnew (.inr h)]
        constructor
        · exact fun h => Eq.trans h.2 (ih.1 h.1)
        · intro h
          have hopening : (reservePages prot src first size (opening first n) (.linked, s₀)).2.capacity ≤
              (reservePages prot src first size (n + 1) (.linked, s₀)).2.capacity :=
            capacity_mono_reservePages _ ((opening_le n).trans (Nat.le_succ n))
          have heq : (reservePages prot src first size (n + 1) (.linked, s₀)).2.capacity =
              (reservePages prot src first size (opening first n) (.linked, s₀)).2.capacity :=
            le_antisymm (hle.trans h.le) hopening
          exact ⟨ih.2 heq, h.trans heq.symm⟩

/-- **Which pages of a mapping are lost.**  A page of a free range is mapped afterwards if and only if the pool stayed
in place from when the way down to its table was taken until its entry was made. -/
theorem pte_reservePages_iff {s₀ : System} {count i : ℕ} (hcount : (count : ℤ) ≤ 2 ^ 36) (hi : i < count)
    (hfree : s₀.pte (first + i) = none) :
    (reservePages prot src first size count (.linked, s₀)).2.pte (first + i) ≠ none ↔
      InPlace (reservePages prot src first size (opening first i) (.linked, s₀)).2
        (reservePages prot src first size (i + 1) (.linked, s₀)).2 := by
  have hopen (n : ℕ) (q : ℤ) : (opened first n (reservePages prot src first size n (.linked, s₀))).2.pte q =
      (reservePages prot src first size n (.linked, s₀)).2.pte q := by
    rw [opened]
    split
    · exact pte_openSlot _ _ _
    · rfl
  have hstep (n : ℕ) (q : ℤ) : (reservePages prot src first size (n + 1) (.linked, s₀)).2.pte q =
      if (reservePages prot src first size (n + 1) (.linked, s₀)).1 = .linked then
        ((opened first n (reservePages prot src first size n (.linked, s₀))).2.storePte (first + n) (some
          (newEntry prot src (size - 4096 * n) n
            (opened first n (reservePages prot src first size n (.linked, s₀))).2).1)).pte q
      else (opened first n (reservePages prot src first size n (.linked, s₀))).2.pte q :=
    pte_reservePage _ _ n _ _ q
  -- the other rounds leave the entry alone
  have hother (n : ℕ) (hn : n < count) (hne : n ≠ i) :
      (reservePages prot src first size (n + 1) (.linked, s₀)).2.pte (first + i) =
        (reservePages prot src first size n (.linked, s₀)).2.pte (first + i) := by
    have hsame : ¬ Same (first + n) (first + i) := by
      rcases Nat.lt_or_gt_of_ne hne with hlt | hgt
      · exact not_same (by omega) (by omega)
      · exact fun h => not_same (p := first + i) (q := first + n) (by omega) (by omega) h.symm
    refine (hstep n (first + i)).trans ?_
    split
    · rw [pte_storePte_of_not_same _ hsame, hopen]
    · exact hopen n _
  have hbefore (n : ℕ) (hn : n ≤ i) :
      (reservePages prot src first size n (.linked, s₀)).2.pte (first + i) = none := by
    induction n with
    | zero => exact hfree
    | succ n ih => rw [hother n (by omega) (by omega), ih (by omega)]
  have hafter (n : ℕ) (hn : i + 1 ≤ n) (hle : n ≤ count) :
      (reservePages prot src first size n (.linked, s₀)).2.pte (first + i) =
        (reservePages prot src first size (i + 1) (.linked, s₀)).2.pte (first + i) := by
    induction n, hn using Nat.le_induction with
    | base => rfl
    | succ k hk ih => rw [hother k (by omega) (by omega), ih (by omega)]
  rw [hafter count hi le_rfl, ← linked_iff]
  constructor
  · intro hsome
    by_contra hnot
    refine hsome ((hstep i (first + i)).trans ?_)
    rw [if_neg hnot, hopen, hbefore i le_rfl]
  · intro hlinked hnone
    have hstored := (hstep i (first + i)).symm.trans hnone
    rw [if_pos hlinked, pte_storePte_self _ (stop_of_linked hlinked) (Agree.refl 0 4 _)] at hstored
    cases hstored

end Moving

/-- A page is mapped, and the pool is used up. -/
def usedUp : System := { onlyPage 512 with capacity := 4 }

theorem capacity_reservePages_usedUp :
    (reservePages ⟨true, true, true⟩ .anonymous 511 4096 1 (.linked, usedUp)).2.capacity ≠ 4 := by
  -- the page before the one that is mapped lies in another table
  have hlevel : 1 ≤ usedUp.stop 511 := le_stop_onlyPage (p := 511) (q := 512) (k := 1) (by decide) (by decide)
  obtain ⟨k, hk⟩ : ∃ k, usedUp.stop 511 = k + 1 := ⟨_, (Nat.sub_add_cancel hlevel).symm⟩
  have hgrow : 8 ≤ (allocatePageTable usedUp).2.capacity := by
    change 8 ≤ growTo 68 4
    rw [growTo, if_pos (by decide)]
    exact le_growTo 68 8
  have hopened : opened 511 0 (.linked, usedUp) = openSlot usedUp 511 := by
    rw [opened, if_pos (.inl rfl), Nat.cast_zero, add_zero]
  have hopen : 8 ≤ (opened 511 0 (.linked, usedUp)).2.capacity := by
    rw [hopened]
    change 8 ≤ (allocatePageTables (usedUp.stop 511) usedUp).2.capacity
    rw [hk]
    obtain ⟨-, -, -, -, -, -, -, hle, -⟩ := frame_allocatePageTables k (allocatePageTable usedUp).2
    exact hgrow.trans hle
  have hstep : (opened 511 0 (.linked, usedUp)).2.capacity ≤
      (reservePages ⟨true, true, true⟩ .anonymous 511 4096 1 (.linked, usedUp)).2.capacity := by
    change _ ≤ (reservePage _ _ _ _ _ _ _).2.capacity
    rw [capacity_reservePage]
    exact capacity_le_newEntry _ _ _
  omega

/-- A page that needs another table when the pool is used up is lost. -/
theorem pte_reservePages_usedUp :
    (reservePages ⟨true, true, true⟩ .anonymous 511 4096 1 (.linked, usedUp)).2.pte (511 + (0 : ℕ)) = none := by
  by_contra hmapped
  have hfree : usedUp.pte (511 + (0 : ℕ)) = none :=
    pte_onlyPage_of_not_same fun h => not_same (p := 511) (q := 512) (by decide) (by decide) h.symm
  exact capacity_reservePages_usedUp ((pte_reservePages_iff (by decide) (by decide) hfree).1 hmapped)

end AddressSpace
