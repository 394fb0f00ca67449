/-
**The guest memory of forked processes.**

A full fork copies no guest page.  The child starts with a host-page table of the parent's length in
which every entry is null, and pulls a page out of the parent's live memory, by the address the page had
when the parent was serialized, the first time it needs it.  Meanwhile the parent runs on: it stores to
its pages, and when its page pool has too few pages left for a request it moves the pool elsewhere.

Main definitions:

* `ForkMemory.Proc` — the linear memory, the host-page table and the page pool of a process;
* `ForkMemory.growPagePool`, `ForkMemory.allocPoolPage`, `ForkMemory.allocPoolPages`,
  `ForkMemory.allocateAnonymousPage` — the pool and the list of free pages;
* `ForkMemory.pagePoolFault`, `ForkMemory.faultHostPage` — the worker's `page_pool_fault`, and
  `FaultHostPageFromSab`;
* `ForkMemory.step` — the steps of any number of processes;
* `ForkMemory.Guarded` — a step that disturbs no page a child has still to pull.

Main results:

* `ForkMemory.mem_frame` — what a step leaves alone in the memory of every process;
* `ForkMemory.inv_step`, `ForkMemory.firstRead_step` — what one guarded step keeps and does;
* `ForkMemory.firstRead_of_isRun` — in a guarded run every first read returns the page as it was at
  the fork.
-/

import AtuaComputer.ParentPages
import AtuaComputer.Runs

set_option relaxedAutoImplicit false
set_option autoImplicit false

namespace ForkMemory

open ForkState ParentPages Runs

/-! ### Linear memory -/

/-- A WebAssembly memory: a byte for each address. -/
abbrev Mem := ℕ → UInt8

/-- Copying `len` bytes to `dst`. -/
def blit (mem : Mem) (dst len : ℕ) (src : ℕ → UInt8) : Mem :=
  fun k => if dst ≤ k ∧ k < dst + len then src (k - dst) else mem k

theorem blit_of_mem {mem : Mem} {dst len k : ℕ} {src : ℕ → UInt8} (h : k < len) :
    blit mem dst len src (dst + k) = src k := by
  rw [blit, if_pos (by omega), Nat.add_sub_cancel_left]

theorem blit_of_not_mem {mem : Mem} {dst len k : ℕ} {src : ℕ → UInt8}
    (h : ¬ (dst ≤ k ∧ k < dst + len)) : blit mem dst len src k = mem k := if_neg h

/-! ### Processes -/

/-- The page pool of a process: its first byte, its size in bytes and the next page to hand out.  Its sizes stay
below 2³²; what happens where they wrap is the matter of `PagePool`. -/
structure Pool where
  base : ℕ
  capacity : ℕ
  nextPage : ℕ
deriving DecidableEq

/-- What a forked worker knows of its parent. -/
structure Parent where
  pid : ℕ
  /-- `self._guestPagesSab`: the length of the buffer the kernel had for the parent's memory, if it had
  one.  The bytes are the live ones. -/
  guestPagesSab : Option ℕ
  /-- `self._parentPageAddrs` -/
  parentPageAddrs : List ℕ

/-- A process. -/
structure Proc where
  mem : Mem
  /-- `memory.buffer.byteLength` -/
  byteLength : ℕ
  /-- `proc.wasmMemory` of the kernel: the length of the buffer it was last sent. -/
  wasmMemory : Option ℕ
  /-- `g_hostpages`: the address of each host page, 0 while it is null. -/
  hostPages : List ℕ
  /-- `g_allocator.pages`: the free pages. -/
  freePages : List ℕ
  pagePool : Pool
  /-- `g_hp_sab_count` -/
  sabCount : ℕ
  parent : Option Parent
  /-- Not a field of the program: what each page held in the parent at the fork. -/
  snapshot : ℕ → ℕ → UInt8

/-- The size of a pool of twice as many pages. -/
def Pool.doubled (pool : Pool) : ℕ := pool.capacity / 4096 * 2 * 4096

/-- A pool that was moved and doubled. -/
def Pool.moved (pool : Pool) (newBase : ℕ) : Pool := { pool with base := newBase, capacity := pool.doubled }

/-- A pointer into a pool that is moved; the difference is one of `ptrdiff_t`. -/
def Pool.relocate (pool : Pool) (newBase ptr : ℕ) : ℕ :=
  if pool.base ≤ ptr ∧ ptr - pool.base < min pool.capacity (2 ^ 31) then newBase + (ptr - pool.base) else ptr

/-- `GrowPagePool`, called to double the pool.  The allocator answers with `newBase`. -/
def growPagePool (p : Proc) (newBase : ℕ) : Proc :=
  let cleared := blit p.mem newBase p.pagePool.doubled fun _ => 0
  { p with
    mem := blit cleared newBase (p.pagePool.nextPage * 4096) fun k => cleared (p.pagePool.base + k)
    hostPages := p.hostPages.map (p.pagePool.relocate newBase)
    freePages := p.freePages.map (p.pagePool.relocate newBase)
    pagePool := p.pagePool.moved newBase }

/-- Where the pool hands out pages. -/
def Pool.next (pool : Pool) : ℕ := pool.base + pool.nextPage * 4096

/-- The process when the pool has handed out `count` pages. -/
def takePages (p : Proc) (count : ℕ) : Proc :=
  { p with pagePool := { p.pagePool with nextPage := p.pagePool.nextPage + count } }

/-- Whether the pool has to grow before it hands out a page. -/
def Pool.Full (pool : Pool) : Prop := pool.capacity ≤ pool.nextPage * 4096

instance (pool : Pool) : Decidable pool.Full := inferInstanceAs (Decidable (_ ≤ _))

/-- The process after the pool has made room for a page. -/
def makeRoom (p : Proc) (newBase : ℕ) : Proc :=
  if p.pagePool.Full then growPagePool p newBase else p

/-- `AllocPoolPage`: the process and the address of the page. -/
def allocPoolPage (p : Proc) (newBase : ℕ) : Proc × ℕ :=
  let p := makeRoom p newBase
  (takePages p 1, p.pagePool.next)

/-- Whether the pool has to grow before it hands out `count` pages. -/
def Pool.Short (pool : Pool) (count : ℕ) : Prop := pool.capacity < (pool.nextPage + count) * 4096

instance (pool : Pool) (count : ℕ) : Decidable (pool.Short count) := inferInstanceAs (Decidable (_ < _))

/-- `AllocPoolPages`, with the answers of the allocator to the rounds of its loop.  There is no result if the
answers do not suffice or one of them is null, which ends the process. -/
def allocPoolPages (count : ℕ) : List ℕ → Proc → Option (Proc × ℕ)
  | [], p => if p.pagePool.Short count then none else some (takePages p count, p.pagePool.next)
  | newBase :: newBases, p =>
    if p.pagePool.Short count then
      if newBase = 0 then none else allocPoolPages count newBases (growPagePool p newBase)
    else some (takePages p count, p.pagePool.next)

/-- `AllocateAnonymousPage` up to `TrackHostPage`: a free page, or the first of 64 new ones, the others of which
become free pages. -/
def allocateAnonymousPage (newBases : List ℕ) (p : Proc) : Option (Proc × ℕ) :=
  match p.freePages with
  | page :: freePages => some ({ p with freePages }, page)
  | [] => (allocPoolPages 64 newBases p).map fun (q, page) =>
      ({ q with freePages := (List.range 63).map (fun i => page + (i + 1) * 4096) ++ q.freePages }, page)

/-- `TrackHostPage` -/
def trackHostPage (p : Proc) (ptr : ℕ) : Proc := { p with hostPages := p.hostPages ++ [ptr] }

/-- `page_pool_fault` of the worker: the page is copied out of the parent's memory by its address, as
far as the buffer reaches.  Without an address the kernel is asked, whose answer is a stub. -/
def pagePoolFault (mem : Mem) (parent : Option Parent) (parentMem : ℕ → Mem) (pageIndex dest : ℕ) :
    Mem :=
  match parent with
  | none => mem
  | some par =>
    match par.guestPagesSab, par.parentPageAddrs[pageIndex]? with
    | some len, some addr =>
      if 0 < addr then
        blit mem dest (min (addr + 4096) len - min addr len) fun k => parentMem par.pid (addr + k)
      else mem
    | _, _ => mem

/-- Whether reading a host page faults it in. -/
def Faults (p : Proc) (index : ℕ) : Prop := p.hostPages[index]? = some 0 ∧ index < p.sabCount

instance (p : Proc) (index : ℕ) : Decidable (Faults p index) := inferInstanceAs (Decidable (_ ∧ _))

/-- `FindHostPage`, which calls `FaultHostPageFromSab` for a null entry. -/
def faultHostPage (p : Proc) (parentMem : ℕ → Mem) (index newBase : ℕ) : Proc :=
  if Faults p index then
    let (q, page) := allocPoolPage p newBase
    { q with
      mem := pagePoolFault q.mem q.parent parentMem index page
      hostPages := q.hostPages.set index page }
  else p

/-! ### Steps -/

/-- The processes, by pid. -/
abbrev State := ℕ → Option Proc

/-- The memory of a process. -/
def State.memOf (s : State) (pid : ℕ) : Mem := ((s pid).map Proc.mem).getD fun _ => 0

inductive Event where
  /-- A byte is stored to the memory of a process, by the guest, by Blink or by the kernel. -/
  | store (pid addr : ℕ) (b : UInt8)
  /-- `memory.grow` -/
  | growMemory (pid bytes : ℕ)
  /-- The kernel is sent the current buffer of a process. -/
  | registerMemory (pid : ℕ)
  /-- `AllocateAnonymousPage` -/
  | allocateAnonymousPage (pid : ℕ) (newBases : List ℕ)
  /-- `AllocPoolPages`, for `Mmap`. -/
  | allocPoolPages (pid count : ℕ) (newBases : List ℕ)
  /-- `TrackHostPage` -/
  | trackHostPage (pid ptr : ℕ)
  /-- `FreeAnonymousPage` -/
  | freeAnonymousPage (pid page : ℕ)
  /-- A guest access to a page. -/
  | access (pid index newBase : ℕ)
  /-- A full fork: what the parent serialized, the child's pid, and the memory and pool it starts
  with; it has no free pages. -/
  | fork (pid child : ℕ) (blob : Source) (mem : Mem) (pool : Pool)

/-- What a page of a process holds: its bytes, or, while it has not been faulted in, what it is
supposed to hold then. -/
def content (p : Proc) (index k : ℕ) : UInt8 :=
  match p.hostPages[index]? with
  | none | some 0 => p.snapshot index k
  | some addr => p.mem (addr + k)

/-- The child of a full fork.  Its host-page table is the one `RestoreForkCpuState` makes. -/
def forkChild (p : Proc) (pid : ℕ) (blob : Source) (mem : Mem) (pool : Pool) : Proc :=
  let restored := (restore (Blink.newMachine blob.machine fun _ => none) (serialize blob)).1
  { mem
    byteLength := 4096 * 65536
    wasmMemory := none
    hostPages := restored.hostPages.map fun a => (a.map UInt32.toNat).getD 0
    freePages := []
    pagePool := pool
    sabCount := restored.sabCount
    parent := some
      { pid
        guestPagesSab := p.wasmMemory
        parentPageAddrs := (parseParentPageAddrs (serialize blob)).map UInt32.toNat }
    snapshot := content p }

/-- One step; `none` when the event cannot happen. -/
def step (s : State) : Event → Option State
  | .store pid addr b => do
    let p ← s pid
    some (Function.update s pid (some { p with mem := Function.update p.mem addr b }))
  | .growMemory pid bytes => do
    let p ← s pid
    some (Function.update s pid (some { p with byteLength := p.byteLength + bytes }))
  | .registerMemory pid => do
    let p ← s pid
    some (Function.update s pid (some { p with wasmMemory := some p.byteLength }))
  | .allocateAnonymousPage pid newBases => do
    let p ← s pid
    let (q, page) ← allocateAnonymousPage newBases p
    some (Function.update s pid (some (trackHostPage q page)))
  | .allocPoolPages pid count newBases => do
    let p ← s pid
    let (q, _) ← allocPoolPages count newBases p
    some (Function.update s pid (some q))
  | .trackHostPage pid ptr => do
    let p ← s pid
    some (Function.update s pid (some (trackHostPage p ptr)))
  | .freeAnonymousPage pid page => do
    let p ← s pid
    some (Function.update s pid (some { p with freePages := page :: p.freePages }))
  | .access pid index newBase => do
    let p ← s pid
    -- a failed allocation ends the process
    if newBase = 0 then none
    else some (Function.update s pid (some (faultHostPage p s.memOf index newBase)))
  | .fork pid child blob mem pool => do
    let p ← s pid
    if s child = none ∧ blob.hostPages.map UInt32.toNat = p.hostPages ∧ pool.base ≠ 0 then
      some (Function.update s child (some (forkChild p pid blob mem pool)))
    else none

/-! ### What a step writes -/

/-- The addresses a pool is copied to. -/
def CopiesTo (pool : Pool) (newBase k : ℕ) : Prop :=
  newBase ≤ k ∧ (k < newBase + pool.doubled ∨ k < newBase + pool.nextPage * 4096)

/-- The addresses a pool moves to when it makes room for a page. -/
def MovesTo (pool : Pool) (newBase k : ℕ) : Prop := pool.Full ∧ CopiesTo pool newBase k

/-- The addresses a pool moves over when it makes room for `count` pages. -/
def MovesOver (count : ℕ) : List ℕ → Pool → ℕ → Prop
  | [], _, _ => False
  | newBase :: newBases, pool, k =>
    pool.Short count ∧ (CopiesTo pool newBase k ∨ MovesOver count newBases (pool.moved newBase) k)

/-- The addresses of the page a fault fills. -/
def FillsPage (p : Proc) (newBase k : ℕ) : Prop :=
  (allocPoolPage p newBase).2 ≤ k ∧ k < (allocPoolPage p newBase).2 + 4096

/-- The addresses at which an event may change the memory of the process it is about. -/
def Touches (p : Proc) : Event → ℕ → Prop
  | .store _ addr b, k => k = addr ∧ p.mem addr ≠ b
  | .allocateAnonymousPage _ newBases, k => p.freePages = [] ∧ MovesOver 64 newBases p.pagePool k
  | .allocPoolPages _ count newBases, k => MovesOver count newBases p.pagePool k
  | .access _ index newBase, k => Faults p index ∧ (MovesTo p.pagePool newBase k ∨ FillsPage p newBase k)
  | _, _ => False

/-- The process an event is about. -/
def Event.pid : Event → ℕ
  | .store pid _ _ | .growMemory pid _ | .registerMemory pid | .allocateAnonymousPage pid _ | .allocPoolPages pid _ _
  | .trackHostPage pid _ | .freeAnonymousPage pid _ | .access pid _ _ | .fork pid _ _ _ _ => pid

/-- The pool is somewhere in memory, and the pages that are to be faulted in are in the host-page table. -/
structure Sound (p : Proc) : Prop where
  base : p.pagePool.base ≠ 0
  counted : p.sabCount ≤ p.hostPages.length

/-- How a process may change in a step: its memory outside the given addresses, its parent and what
its pages are supposed to hold stay, no page becomes null, and it stays sound. -/
structure Evolves (p q : Proc) (w : ℕ → Prop) : Prop where
  mem : ∀ k, ¬ w k → q.mem k = p.mem k
  parent : q.parent = p.parent
  snapshot : q.snapshot = p.snapshot
  faults : ∀ i, Faults q i → Faults p i
  sound : Sound p → Sound q

theorem Evolves.mono {p q : Proc} {w w' : ℕ → Prop} (h : Evolves p q w) (hw : ∀ k, w k → w' k) :
    Evolves p q w' :=
  { h with mem := fun k hk => h.mem k fun hwk => hk (hw k hwk) }

theorem Evolves.trans {p q r : Proc} {w w' : ℕ → Prop} (h : Evolves p q w) (h' : Evolves q r w') :
    Evolves p r fun k => w k ∨ w' k where
  mem k hk := (h'.mem k fun hw => hk (Or.inr hw)).trans (h.mem k fun hw => hk (Or.inl hw))
  parent := h'.parent.trans h.parent
  snapshot := h'.snapshot.trans h.snapshot
  faults i hi := h.faults i (h'.faults i hi)
  sound hs := h'.sound (h.sound hs)

/-- The memory of a pool that moves changes where it moves to. -/
theorem evolves_growPagePool {p : Proc} {newBase : ℕ} (hnew : newBase ≠ 0) :
    Evolves p (growPagePool p newBase) (CopiesTo p.pagePool newBase) := by
  refine ⟨fun k hk => ?_, rfl, rfl, fun i hi => ⟨?_, hi.2⟩, fun hs => ⟨hnew, ?_⟩⟩
  · have hout : ∀ len, (len = p.pagePool.doubled ∨ len = p.pagePool.nextPage * 4096) →
        ¬ (newBase ≤ k ∧ k < newBase + len) := by
      rintro len hlen ⟨hle, hlt⟩
      rcases hlen with rfl | rfl
      · exact hk ⟨hle, Or.inl hlt⟩
      · exact hk ⟨hle, Or.inr hlt⟩
    simp only [growPagePool]
    rw [blit_of_not_mem (hout _ (Or.inr rfl)), blit_of_not_mem (hout _ (Or.inl rfl))]
  · -- a page that moved is in the new pool, so one that is null was null before
    obtain ⟨a, ha, hmoved⟩ := Option.map_eq_some_iff.1 (List.getElem?_map ▸ hi.1)
    unfold Pool.relocate at hmoved
    split_ifs at hmoved with hin
    · omega
    · rw [ha, hmoved]
  · rw [growPagePool, List.length_map]
    exact hs.counted

/-- Handing out pages changes nothing else. -/
theorem evolves_takePages (p : Proc) (count : ℕ) : Evolves p (takePages p count) fun _ => False :=
  ⟨fun _ _ => rfl, rfl, rfl, fun _ hi => hi, fun hs => ⟨hs.base, hs.counted⟩⟩

theorem evolves_makeRoom {p : Proc} {newBase : ℕ} (hnew : newBase ≠ 0) :
    Evolves p (makeRoom p newBase) (MovesTo p.pagePool newBase) := by
  unfold makeRoom
  split_ifs with hfull
  · exact (evolves_growPagePool hnew).mono fun k hk => ⟨hfull, hk⟩
  · exact ⟨fun _ _ => rfl, rfl, rfl, fun _ hi => hi, fun hs => hs⟩

theorem evolves_allocPoolPage {p : Proc} {newBase : ℕ} (hnew : newBase ≠ 0) :
    Evolves p (allocPoolPage p newBase).1 (MovesTo p.pagePool newBase) :=
  ((evolves_makeRoom hnew).trans (evolves_takePages _ 1)).mono fun _ hk => hk.resolve_right id

/-- A page that was just allocated is not null. -/
theorem allocPoolPage_ne_zero {p : Proc} {newBase : ℕ} (hnew : newBase ≠ 0) (hs : Sound p) :
    (allocPoolPage p newBase).2 ≠ 0 := by
  have hbase := ((evolves_makeRoom (p := p) hnew).sound hs).base
  show (makeRoom p newBase).pagePool.base + (makeRoom p newBase).pagePool.nextPage * 4096 ≠ 0
  omega

/-- **The loop of `AllocPoolPages`** changes the memory where the pool moves over. -/
theorem evolves_allocPoolPages {count : ℕ} {newBases : List ℕ} {p q : Proc} {page : ℕ}
    (h : allocPoolPages count newBases p = some (q, page)) : Evolves p q (MovesOver count newBases p.pagePool) := by
  induction newBases generalizing p with
  | nil =>
      unfold allocPoolPages at h
      split_ifs at h
      cases h
      exact evolves_takePages p count
  | cons newBase newBases ih =>
      unfold allocPoolPages at h
      split_ifs at h with hshort hnew
      · have hgrown := evolves_growPagePool (p := p) hnew
        exact (hgrown.trans (ih h)).mono fun k hk => ⟨hshort, hk⟩
      · cases h
        exact (evolves_takePages p count).mono fun k hk => hk.elim

theorem evolves_allocateAnonymousPage {newBases : List ℕ} {p q : Proc} {page : ℕ}
    (h : allocateAnonymousPage newBases p = some (q, page)) :
    Evolves p q fun k => p.freePages = [] ∧ MovesOver 64 newBases p.pagePool k := by
  unfold allocateAnonymousPage at h
  split at h
  · cases h
    exact ⟨fun _ _ => rfl, rfl, rfl, fun _ hi => hi, fun hs => ⟨hs.base, hs.counted⟩⟩
  · next hempty =>
      obtain ⟨⟨r, first⟩, halloc, hr⟩ := Option.map_eq_some_iff.1 h
      cases hr
      have hev := evolves_allocPoolPages halloc
      exact ⟨fun k hk => hev.mem k fun hmoves => hk ⟨hempty, hmoves⟩, hev.parent, hev.snapshot, hev.faults,
        fun hs => ⟨(hev.sound hs).base, (hev.sound hs).counted⟩⟩

/-- A copied page stays within the page. -/
theorem pagePoolFault_frame (mem : Mem) (parent : Option Parent) (parentMem : ℕ → Mem)
    (index dest : ℕ) {k : ℕ} (hk : ¬ (dest ≤ k ∧ k < dest + 4096)) :
    pagePoolFault mem parent parentMem index dest k = mem k := by
  cases parent with
  | none => rfl
  | some par =>
      obtain ⟨pid, guestPagesSab, addrs⟩ := par
      cases guestPagesSab with
      | none => rfl
      | some len =>
          cases haddr : addrs[index]? with
          | none => simp only [pagePoolFault, haddr]
          | some addr =>
              simp only [pagePoolFault, haddr]
              split_ifs with hpos
              · exact blit_of_not_mem (by omega)
              · rfl

theorem evolves_faultHostPage {p : Proc} {parentMem : ℕ → Mem} {index newBase : ℕ}
    (hnew : newBase ≠ 0) (hs : Sound p) :
    Evolves p (faultHostPage p parentMem index newBase) fun k =>
      Faults p index ∧ (MovesTo p.pagePool newBase k ∨ FillsPage p newBase k) := by
  unfold faultHostPage
  split_ifs with hf
  · have halloc := evolves_allocPoolPage (p := p) hnew
    refine ⟨fun k hk => ?_, halloc.parent, halloc.snapshot, fun i hi => ?_, fun hs => ⟨(halloc.sound hs).base, ?_⟩⟩
    · have hout : ¬ MovesTo p.pagePool newBase k ∧ ¬ FillsPage p newBase k := by
        rw [← not_or]
        exact fun h => hk ⟨hf, h⟩
      exact (pagePoolFault_frame _ _ _ _ _ hout.2).trans (halloc.mem k hout.1)
    · refine halloc.faults i ⟨?_, hi.2⟩
      have hset := hi.1
      rw [List.getElem?_set] at hset
      split_ifs at hset with hi' hlen
      · exact absurd (Option.some.inj hset) (allocPoolPage_ne_zero hnew hs)
      · exact hset
    · rw [List.length_set]
      exact (halloc.sound hs).counted
  · exact ⟨fun _ _ => rfl, rfl, rfl, fun _ hi => hi, fun hs => hs⟩

/-- A page behind those that are to be faulted in is not faulted in. -/
theorem evolves_trackHostPage {p : Proc} (hs : Sound p) (ptr : ℕ) :
    Evolves p (trackHostPage p ptr) fun _ => False := by
  refine ⟨fun _ _ => rfl, rfl, rfl, fun i hi => ⟨?_, hi.2⟩, fun _ => ⟨hs.base, ?_⟩⟩
  · have hcounted := hs.counted
    have hindex : i < p.sabCount := hi.2
    have hget := hi.1
    rwa [trackHostPage, List.getElem?_append_left (by omega)] at hget
  · rw [trackHostPage, List.length_append]
    exact Nat.le_add_right_of_le hs.counted

/-- **What a step does.**  It changes one process, or it adds one. -/
theorem step_cases {s s' : State} {e : Event} (h : step s e = some s') (hsound : ∀ p, s e.pid = some p → Sound p) :
    (∃ p q, s e.pid = some p ∧ s' = Function.update s e.pid (some q) ∧ Evolves p q (Touches p e)) ∨
      ∃ pid child blob mem pool p, e = .fork pid child blob mem pool ∧ s pid = some p ∧
        s child = none ∧ blob.hostPages.map UInt32.toNat = p.hostPages ∧ pool.base ≠ 0 ∧
        s' = Function.update s child (some (forkChild p pid blob mem pool)) := by
  cases e with
  | store pid addr b =>
      obtain ⟨p, hp, h⟩ := Option.bind_eq_some_iff.1 h
      cases h
      refine Or.inl ⟨p, _, hp, rfl, fun k hk => ?_, rfl, rfl, fun _ hi => hi, fun hs => ⟨hs.base, hs.counted⟩⟩
      -- a store of the byte that is there already touches nothing
      by_cases hka : k = addr
      · subst hka
        have hb : p.mem k = b := by
          by_contra hne
          exact hk ⟨rfl, hne⟩
        simp [hb]
      · exact Function.update_of_ne hka _ _
  | growMemory pid bytes =>
      obtain ⟨p, hp, h⟩ := Option.bind_eq_some_iff.1 h
      cases h
      exact Or.inl ⟨p, _, hp, rfl, fun _ _ => rfl, rfl, rfl, fun _ hi => hi, fun hs => ⟨hs.base, hs.counted⟩⟩
  | registerMemory pid =>
      obtain ⟨p, hp, h⟩ := Option.bind_eq_some_iff.1 h
      cases h
      exact Or.inl ⟨p, _, hp, rfl, fun _ _ => rfl, rfl, rfl, fun _ hi => hi, fun hs => ⟨hs.base, hs.counted⟩⟩
  | allocateAnonymousPage pid newBases =>
      obtain ⟨p, hp, h⟩ := Option.bind_eq_some_iff.1 h
      obtain ⟨⟨q, page⟩, halloc, h⟩ := Option.bind_eq_some_iff.1 h
      cases h
      have hev := evolves_allocateAnonymousPage halloc
      have htrack := evolves_trackHostPage (hev.sound (hsound p hp)) page
      exact Or.inl ⟨p, _, hp, rfl, (hev.trans htrack).mono fun k hk => hk.resolve_right id⟩
  | allocPoolPages pid count newBases =>
      obtain ⟨p, hp, h⟩ := Option.bind_eq_some_iff.1 h
      obtain ⟨⟨q, page⟩, halloc, h⟩ := Option.bind_eq_some_iff.1 h
      cases h
      exact Or.inl ⟨p, _, hp, rfl, evolves_allocPoolPages halloc⟩
  | trackHostPage pid ptr =>
      obtain ⟨p, hp, h⟩ := Option.bind_eq_some_iff.1 h
      cases h
      exact Or.inl ⟨p, _, hp, rfl, evolves_trackHostPage (hsound p hp) ptr⟩
  | freeAnonymousPage pid page =>
      obtain ⟨p, hp, h⟩ := Option.bind_eq_some_iff.1 h
      cases h
      exact Or.inl ⟨p, _, hp, rfl, fun _ _ => rfl, rfl, rfl, fun _ hi => hi, fun hs => ⟨hs.base, hs.counted⟩⟩
  | access pid index newBase =>
      obtain ⟨p, hp, h⟩ := Option.bind_eq_some_iff.1 h
      split_ifs at h with hnew
      cases h
      exact Or.inl ⟨p, _, hp, rfl, evolves_faultHostPage hnew (hsound p hp)⟩
  | fork pid child blob mem pool =>
      obtain ⟨p, hp, h⟩ := Option.bind_eq_some_iff.1 h
      split_ifs at h with hok
      cases h
      exact Or.inr ⟨pid, child, blob, mem, pool, p, rfl, hp, hok.1, hok.2.1, hok.2.2, rfl⟩

/-- **The frame of a step.**  The memory of a process that exists changes only where the step is said
to write. -/
theorem mem_frame {s s' : State} {e : Event} (h : step s e = some s') (hsound : ∀ p, s e.pid = some p → Sound p)
    {pid k : ℕ} {p : Proc} (hp : s pid = some p) (hk : e.pid = pid → ¬ Touches p e k) :
    (s' pid).isSome ∧ s'.memOf pid k = s.memOf pid k := by
  rcases step_cases h hsound with ⟨p₀, q, hp₀, rfl, hev⟩ | ⟨_, child, _, _, _, _, _, _, hc, _, _, rfl⟩
  · by_cases hpid : pid = e.pid
    · subst hpid
      have hpp : p₀ = p := Option.some.inj (hp₀.symm.trans hp)
      subst hpp
      simp [State.memOf, hp, hev.mem k (hk rfl)]
    · simp [State.memOf, Function.update_of_ne hpid, hp]
  · have hne : pid ≠ child := fun he => by simp [← he, hp] at hc
    simp [State.memOf, Function.update_of_ne hne, hp]

/-! ### Guarded runs -/

/-- A process has still to pull a page, from an address of its parent. -/
def Pulls (s : State) (pid index : ℕ) (par : Parent) (addr : ℕ) : Prop :=
  ∃ p, s pid = some p ∧ Faults p index ∧ p.parent = some par ∧
    par.parentPageAddrs[index]? = some addr

/-- A process is in a state to be forked: it has faulted in all its own pages, the kernel knows its
memory as far as they reach, and the worker of the child will find their addresses. -/
def ForkReady (p : Proc) : Event → Prop
  | .fork _ _ blob _ _ =>
    (∀ a ∈ p.hostPages, 0 < a) ∧ (∃ len, p.wasmMemory = some len ∧ ∀ a ∈ p.hostPages, a + 4096 ≤ len) ∧
      (blob.hostPages = [] ∨ Recognisable blob.hostPages ∧ HarmlessDecoys blob)
  | _ => True

/-- The condition on a step: it writes to no page that a child has still to pull, and a fork finds its
process ready. -/
structure Guarded (s : State) (e : Event) : Prop where
  spares : ∀ pid index par addr p, Pulls s pid index par addr → e.pid = par.pid →
    s par.pid = some p → ∀ k < 4096, ¬ Touches p e (addr + k)
  ready : ∀ p, s e.pid = some p → ForkReady p e

/-- A page that is still to be pulled is where the child will look for it. -/
def Sourced (s : State) (p : Proc) (index : ℕ) : Prop :=
  ∃ par addr len, p.parent = some par ∧ (s par.pid).isSome ∧ par.guestPagesSab = some len ∧
    par.parentPageAddrs[index]? = some addr ∧ 0 < addr ∧ addr + 4096 ≤ len ∧
    ∀ k < 4096, s.memOf par.pid (addr + k) = p.snapshot index k

/-- The invariant of guarded runs. -/
structure Inv (s : State) : Prop where
  sound : ∀ pid p, s pid = some p → Sound p
  sourced : ∀ pid p index, s pid = some p → Faults p index → Sourced s p index

theorem content_eq {p : Proc} {index addr : ℕ} (h : p.hostPages[index]? = some addr)
    (haddr : addr ≠ 0) (k : ℕ) : content p index k = p.mem (addr + k) := by
  cases addr with
  | zero => exact absurd rfl haddr
  | succ a => simp only [content, h]

theorem forkChild_hostPages (p : Proc) (pid : ℕ) (blob : Source) (mem : Mem) (pool : Pool) :
    (forkChild p pid blob mem pool).hostPages = List.replicate blob.hostPages.length 0 ∧
      (forkChild p pid blob mem pool).sabCount = blob.hostPages.length := by
  simp only [forkChild, restore_serialize]
  simp

/-- The child of a process that is ready has all its pages where it will look for them. -/
theorem sourced_forkChild {s : State} {pid child : ℕ} {blob : Source} {mem : Mem} {pool : Pool}
    {p : Proc} (hp : s pid = some p) (hne : pid ≠ child)
    (hpages : blob.hostPages.map UInt32.toNat = p.hostPages)
    (hready : ForkReady p (.fork pid child blob mem pool)) {index : ℕ}
    (hf : Faults (forkChild p pid blob mem pool) index) :
    Sourced (Function.update s child (some (forkChild p pid blob mem pool)))
      (forkChild p pid blob mem pool) index := by
  obtain ⟨hpos, ⟨len, hlen, hfit⟩, hparse⟩ := hready
  have hlt : index < blob.hostPages.length := by
    rw [← (forkChild_hostPages p pid blob mem pool).2]
    exact hf.2
  have hrec : Recognisable blob.hostPages ∧ HarmlessDecoys blob :=
    hparse.resolve_left fun hnil => by simp [hnil] at hlt
  have haddrs : (parseParentPageAddrs (serialize blob)).map UInt32.toNat = p.hostPages := by
    rw [parse_of_recognisable hrec.1 hrec.2, hpages]
  have hlt' : index < p.hostPages.length := by rwa [← hpages, List.length_map]
  have hget : p.hostPages[index]? = some p.hostPages[index] := List.getElem?_eq_getElem hlt'
  have hmem := List.getElem_mem hlt'
  refine ⟨_, p.hostPages[index], len, rfl, ?_, hlen, ?_, hpos _ hmem, hfit _ hmem, fun k _ => ?_⟩
  · simp [Function.update_of_ne hne, hp]
  · rw [haddrs, hget]
  · rw [show (forkChild p pid blob mem pool).snapshot index k = content p index k from rfl,
      content_eq hget (hpos _ hmem).ne']
    simp [State.memOf, Function.update_of_ne hne, hp]

/-- **A guarded step keeps the invariant.** -/
theorem inv_step {s s' : State} {e : Event} (hi : Inv s) (hg : Guarded s e)
    (h : step s e = some s') : Inv s' := by
  have hsound : ∀ p, s e.pid = some p → Sound p := hi.sound e.pid
  -- a page that was waiting in `s`, and whose process keeps what it knows of it, is still there
  have hstill : ∀ pid p q index, s pid = some p → Faults p index → q.parent = p.parent →
      q.snapshot = p.snapshot → Sourced s' q index := by
    intro pid p q index hp hf hpar hsnap
    obtain ⟨par, addr, len, hparent, hsome, hlen, haddr, hpos, hfit, hbytes⟩ :=
      hi.sourced pid p index hp hf
    obtain ⟨pp, hpp⟩ := Option.isSome_iff_exists.1 hsome
    have hkeep : ∀ k < 4096, (s' par.pid).isSome ∧
        s'.memOf par.pid (addr + k) = s.memOf par.pid (addr + k) := fun k hk =>
      mem_frame h hsound hpp fun he =>
        hg.spares pid index par addr pp ⟨p, hp, hf, hparent, haddr⟩ he hpp k hk
    refine ⟨par, addr, len, hpar.trans hparent, (hkeep 0 (by omega)).1, hlen, haddr, hpos, hfit,
      fun k hk => ?_⟩
    rw [(hkeep k hk).2, hbytes k hk, hsnap]
  rcases step_cases h hsound with
    ⟨p, q, hp, rfl, hev⟩ | ⟨pid, child, blob, mem, pool, p, rfl, hp, hc, hpages, hpool, rfl⟩
  · constructor
    · intro c r hr
      by_cases hcp : c = e.pid
      · subst hcp
        rw [Function.update_self] at hr
        cases hr
        exact hev.sound (hi.sound _ p hp)
      · rw [Function.update_of_ne hcp] at hr
        exact hi.sound c r hr
    · intro c r index hr hf
      by_cases hcp : c = e.pid
      · subst hcp
        rw [Function.update_self] at hr
        cases hr
        exact hstill _ p q index hp (hev.faults index hf) hev.parent hev.snapshot
      · rw [Function.update_of_ne hcp] at hr
        exact hstill c r r index hr hf rfl rfl
  · have hne : pid ≠ child := fun he => by simp [← he, hp] at hc
    constructor
    · intro c r hr
      by_cases hcc : c = child
      · subst hcc
        rw [Function.update_self] at hr
        cases hr
        have hpages := forkChild_hostPages p pid blob mem pool
        refine ⟨hpool, ?_⟩
        rw [hpages.1, hpages.2, List.length_replicate]
      · rw [Function.update_of_ne hcc] at hr
        exact hi.sound c r hr
    · intro c r index hr hf
      by_cases hcc : c = child
      · subst hcc
        rw [Function.update_self] at hr
        cases hr
        exact sourced_forkChild hp hne hpages (hg.ready p hp) hf
      · rw [Function.update_of_ne hcc] at hr
        exact hstill c r r index hr hf rfl rfl

/-- The first read of a page finds what the page held in the parent at the fork. -/
def FirstRead (s : State) (e : Event) (s' : State) : Prop :=
  ∀ pid index newBase p p', e = .access pid index newBase → s pid = some p → Faults p index →
    s' pid = some p' →
    ∃ addr, p'.hostPages[index]? = some addr ∧ addr ≠ 0 ∧
      ∀ k < 4096, p'.mem (addr + k) = p.snapshot index k

/-- What a first read finds: the bytes that the parent has at the address now. -/
theorem access_pulls {s s' : State} {pid index newBase : ℕ} {p p' : Proc}
    (h : step s (.access pid index newBase) = some s') (hp : s pid = some p)
    (hsound : Sound p) (hf : Faults p index) (hp' : s' pid = some p') {par : Parent}
    {addr len : ℕ} (hparent : p.parent = some par) (hlen : par.guestPagesSab = some len)
    (haddr : par.parentPageAddrs[index]? = some addr) (hpos : 0 < addr) (hfit : addr + 4096 ≤ len) :
    ∃ page, p'.hostPages[index]? = some page ∧ page ≠ 0 ∧
      ∀ k < 4096, p'.mem (page + k) = s.memOf par.pid (addr + k) := by
  obtain ⟨p₀, hp₀, h⟩ := Option.bind_eq_some_iff.1 h
  split_ifs at h with hnew
  cases h
  have hpp : p₀ = p := Option.some.inj (hp₀.symm.trans hp)
  subst hpp
  rw [Function.update_self] at hp'
  cases hp'
  have halloc := evolves_allocPoolPage (p := p₀) hnew
  have hlt : index < (allocPoolPage p₀ newBase).1.hostPages.length := by
    have hlen' : (makeRoom p₀ newBase).hostPages.length = p₀.hostPages.length := by
      unfold makeRoom
      split_ifs
      · simp [growPagePool]
      · rfl
    exact hlen' ▸ (List.getElem?_eq_some_iff.1 hf.1).1
  refine ⟨(allocPoolPage p₀ newBase).2, ?_, allocPoolPage_ne_zero hnew hsound, fun k hk => ?_⟩
  · rw [faultHostPage, if_pos hf]
    simp [hlt]
  · rw [faultHostPage, if_pos hf]
    simp only [halloc.parent, hparent, pagePoolFault, hlen, haddr, if_pos hpos]
    rw [blit_of_mem (by omega)]

/-- A first read from a state with the invariant finds what it should. -/
theorem firstRead_step {s s' : State} {e : Event} (hi : Inv s) (h : step s e = some s') :
    FirstRead s e s' := by
  rintro pid index newBase p p' rfl hp hf hp'
  obtain ⟨par, addr, len, hparent, -, hlen, haddr, hpos, hfit, hbytes⟩ :=
    hi.sourced pid p index hp hf
  obtain ⟨page, hpage, hne, hread⟩ :=
    access_pulls h hp (hi.sound pid p hp) hf hp' hparent hlen haddr hpos hfit
  exact ⟨page, hpage, hne, fun k hk => (hread k hk).trans (hbytes k hk)⟩

/-- Processes none of which is a fork child. -/
def Start (s : State) : Prop := ∀ pid p, s pid = some p → p.pagePool.base ≠ 0 ∧ p.sabCount = 0

/-- **When the snapshot is true.**  In every run whose steps write to no page that a child has still to
pull, and fork only processes that are ready, every first read of a forked child returns the page as it
was in its parent at the fork. -/
theorem firstRead_of_isRun {s : State} {tr : List (Event × State)} (hs : Start s)
    (hrun : IsRun (fun s e s' => step s e = some s') s tr) (hguard : Meets Guarded s tr) :
    EachStep FirstRead s tr := by
  have hinv : Inv s :=
    ⟨fun pid p hp => ⟨(hs pid p hp).1, (hs pid p hp).2 ▸ Nat.zero_le _⟩, fun pid p index hp hf => by
      have hzero := (hs pid p hp).2
      have hlt := hf.2
      omega⟩
  exact eachStep_of_meets (fun _ _ _ hi hg h => ⟨inv_step hi hg h, firstRead_step hi h⟩) hinv hrun
    hguard

/-! ### A fork of a process with ten pages -/

theorem tenPages_lt : [(0x10000 : UInt32), 0x11000, 0x12000, 0x13000, 0x14000, 0x15000, 0x16000, 0x17000, 0x18000,
    0x19000].length < 2 ^ 31 := by
  decide

/-- What the first process serializes: ten pages from `0x10000` on. -/
def tenPages : Source where
  machine := default
  hostPages := [0x10000, 0x11000, 0x12000, 0x13000, 0x14000, 0x15000, 0x16000, 0x17000, 0x18000,
    0x19000]
  pagePool := { base := 0x10000, nextPage := 10, capacity := 0x800000 }
  hostPages_lt := tenPages_lt
  fds_lt := default_fds_lt
  filemaps_lt := default_filemaps_lt
  path_lt := default_path_lt

/-- The first process: its memory is all zeros and known to the kernel. -/
def firstProc : Proc where
  mem := fun _ => 0
  byteLength := 4096 * 65536
  wasmMemory := some (4096 * 65536)
  hostPages := tenPages.hostPages.map UInt32.toNat
  freePages := []
  pagePool := { base := 0x10000, capacity := 0x800000, nextPage := 10 }
  sabCount := 0
  parent := none
  snapshot := fun _ _ => 0

/-- The pool a child starts with. -/
def childPool : Pool := { base := 0x20000, capacity := 0x800000, nextPage := 0 }

/-- The child of the first process. -/
def firstChild : Proc := forkChild firstProc 0 tenPages (fun _ => 0) childPool

def oneProc : State := Function.update (fun _ => none) 0 (some firstProc)

def forkIt : Event := .fork 0 1 tenPages (fun _ => 0) childPool

def twoProcs : State := Function.update oneProc 1 (some firstChild)

theorem step_forkIt : step oneProc forkIt = some twoProcs := by
  have h : oneProc 1 = none ∧ tenPages.hostPages.map UInt32.toNat = firstProc.hostPages ∧
      childPool.base ≠ 0 := ⟨rfl, rfl, by decide⟩
  simp only [step, forkIt, oneProc, Function.update_self, Option.bind_eq_bind, Option.bind_some]
  exact if_pos h

theorem tenPages_ready : Recognisable tenPages.hostPages ∧ HarmlessDecoys tenPages :=
  ⟨⟨by decide, by decide, 0x10000, rfl, by decide⟩, fun q hq =>
    absurd hq (not_decoy_of_zero rfl rfl q)⟩

theorem firstChild_parent :
    firstChild.parent = some
      { pid := 0, guestPagesSab := some (4096 * 65536), parentPageAddrs := firstProc.hostPages } := by
  simp only [firstChild, forkChild, parse_of_recognisable tenPages_ready.1 tenPages_ready.2]
  rfl

theorem firstChild_faults : Faults firstChild 0 := by
  have h := forkChild_hostPages firstProc 0 tenPages (fun _ => 0) childPool
  refine ⟨?_, ?_⟩
  · rw [firstChild, h.1]
    rfl
  · rw [firstChild, h.2]
    decide

theorem sound_firstChild : Sound firstChild := by
  have h := forkChild_hostPages firstProc 0 tenPages (fun _ => 0) childPool
  refine ⟨?_, ?_⟩
  · show childPool.base ≠ 0
    decide
  · rw [firstChild, h.1, h.2, List.length_replicate]

/-- The first process stores a byte to its first page after the fork. -/
def storeIt : Event := .store 0 0x10000 7

def stored : State :=
  Function.update twoProcs 0 (some { firstProc with mem := Function.update firstProc.mem 0x10000 7 })

theorem step_storeIt : step twoProcs storeIt = some stored := rfl

/-- The child reads its first page. -/
def readIt : Event := .access 1 0 0x900000

/-- What the child is when it has read its first page. -/
def readBy (s : State) : State :=
  Function.update s 1 (some (faultHostPage firstChild s.memOf 0 0x900000))

theorem step_readIt {s : State} (h : s 1 = some firstChild) : step s readIt = some (readBy s) := by
  simp only [step, readIt, h, Option.bind_eq_bind, Option.bind_some]
  exact if_neg (by decide)

/-- The first process maps 2040 pages, for which its pool has to move. -/
def mapIt : Event := .allocPoolPages 0 2040 [0x1000000]

/-- The first process when its pool has moved. -/
def grownProc : Proc := takePages (growPagePool firstProc 0x1000000) 2040

def grown : State := Function.update twoProcs 0 (some grownProc)

theorem step_mapIt : step twoProcs mapIt = some grown := by
  have hshort : firstProc.pagePool.Short 2040 := by decide
  have hroom : ¬ (growPagePool firstProc 0x1000000).pagePool.Short 2040 := by decide
  have halloc : allocPoolPages 2040 [0x1000000] firstProc =
      some (grownProc, (growPagePool firstProc 0x1000000).pagePool.next) := by
    rw [allocPoolPages, if_pos hshort, if_neg (by decide), allocPoolPages, if_neg hroom, grownProc]
  have hfirst : twoProcs 0 = some firstProc := rfl
  simp only [step, mapIt, hfirst, halloc, Option.bind_eq_bind, Option.bind_some, grown]

/-- What the child has still to pull is in the first pages of the first process. -/
theorem pulls_of_parents {s : State} (hchild : s 1 = some firstChild)
    (hothers : ∀ pid p, pid ≠ 1 → s pid = some p → p.parent = none) {pid index addr : ℕ} {par : Parent}
    (h : Pulls s pid index par addr) : par.pid = 0 ∧ addr ≤ 0x19000 := by
  obtain ⟨q, hq, -, hpar, haddr⟩ := h
  by_cases h1 : pid = 1
  · subst h1
    obtain rfl : firstChild = q := Option.some.inj (hchild.symm.trans hq)
    rw [firstChild_parent] at hpar
    cases hpar
    have hall : ∀ a ∈ firstProc.hostPages, a ≤ 0x19000 := by decide
    exact ⟨rfl, hall _ (List.mem_of_getElem? haddr)⟩
  · rw [hothers pid q h1 hq] at hpar
    cases hpar

/-- The pool of the parent moves, and the child reads what was in the parent's pages where they were. -/
theorem firstRead_forked :
    EachStep FirstRead oneProc [(forkIt, twoProcs), (mapIt, grown), (readIt, readBy grown)] := by
  have hone : ∀ {pid p}, oneProc pid = some p → pid = 0 ∧ p = firstProc := by
    intro pid p hp
    by_cases h0 : pid = 0
    · subst h0
      exact ⟨rfl, (Option.some.inj hp).symm⟩
    · simp [oneProc, Function.update_of_ne h0] at hp
  have htwo : ∀ pid p, pid ≠ 1 → twoProcs pid = some p → p.parent = none := by
    intro pid p h1 hp
    rw [twoProcs, Function.update_of_ne h1] at hp
    obtain ⟨-, rfl⟩ := hone hp
    rfl
  have hgrown : ∀ pid p, pid ≠ 1 → grown pid = some p → p.parent = none := by
    intro pid p h1 hp
    by_cases h0 : pid = 0
    · subst h0
      obtain rfl : grownProc = p := Option.some.inj hp
      rfl
    · rw [grown, Function.update_of_ne h0] at hp
      exact htwo pid p h1 hp
  refine firstRead_of_isRun ?_ ⟨step_forkIt, step_mapIt, step_readIt rfl, trivial⟩ ⟨?_, ?_, ?_, trivial⟩
  · intro pid p hp
    obtain ⟨-, rfl⟩ := hone hp
    exact ⟨by decide, rfl⟩
  · refine ⟨fun _ _ _ _ _ _ _ _ _ _ h => h, fun p hp => ?_⟩
    obtain ⟨-, rfl⟩ := hone hp
    exact ⟨by decide, ⟨_, rfl, by decide⟩, Or.inr tenPages_ready⟩
  · refine ⟨fun pid index par addr p hpulls he hp k hk htouch => ?_, fun _ _ => trivial⟩
    -- the pool moves to addresses above those of the pages
    obtain ⟨hpar, haddr⟩ := pulls_of_parents rfl htwo hpulls
    obtain ⟨-, hcopies | hmoves⟩ := htouch
    · have hle := hcopies.1
      omega
    · exact hmoves
  · refine ⟨fun pid index par addr p hpulls he _ _ _ _ => ?_, fun _ _ => trivial⟩
    -- it is the child that writes
    have hchild : (1 : ℕ) = par.pid := he
    have hpar := (pulls_of_parents rfl hgrown hpulls).1
    omega

/-- If the parent stores to a page before the child has read it, the child reads what was stored: the
page held 0 at the fork, and the child finds 7. -/
theorem not_firstRead_stored :
    IsRun (fun s e s' => step s e = some s') oneProc
        [(forkIt, twoProcs), (storeIt, stored), (readIt, readBy stored)] ∧
      ¬ EachStep FirstRead oneProc
          [(forkIt, twoProcs), (storeIt, stored), (readIt, readBy stored)] := by
  have hread : step stored readIt = some (readBy stored) := step_readIt rfl
  refine ⟨⟨step_forkIt, step_storeIt, hread, trivial⟩, fun h => ?_⟩
  obtain ⟨addr, haddr, -, hsnap⟩ :=
    h.2.2.1 1 0 0x900000 firstChild _ rfl rfl firstChild_faults rfl
  have hchild : stored 1 = some firstChild := rfl
  have hsource : firstProc.hostPages[0]? = some 0x10000 := rfl
  obtain ⟨page, hpage, -, hpull⟩ :=
    access_pulls hread hchild sound_firstChild firstChild_faults rfl firstChild_parent rfl hsource
      (by decide) (by decide)
  rw [hpage] at haddr
  cases haddr
  have hzero : firstChild.snapshot 0 0 = 0 := rfl
  have hseven : stored.memOf 0 (0x10000 + 0) = 7 := by decide
  have hboth := (hpull 0 (by decide)).symm.trans (hsnap 0 (by decide))
  rw [hzero, hseven] at hboth
  exact absurd hboth (by decide)

end ForkMemory
