/-
**The guest's address space.**

Blink keeps the guest's pages in tables of four levels with 512 entries each.  The tables and the guest's pages
come from the page pool: one page at a time from the list of free pages, and 64 at a time from the pool when the
list is empty.  When the pool grows its pages are copied to another block, and a pointer into the old block that a
function still holds no longer leads to the table: what is written through it is lost.  A page that was mapped is
reserved until it is used for the first time.

Pages are numbered by their addresses without the lowest twelve bits.  A host page is its place in the pool, which
growing leaves as it is.

Main definitions:

* `AddressSpace.System` — the tables, the pool and the counters;
* `AddressSpace.removeVirtual`, `AddressSpace.reserveVirtual`, `AddressSpace.protectVirtual` — unmapping, mapping and
  protecting a range of pages;
* `AddressSpace.isFullyMapped`, `AddressSpace.isFullyUnmapped`, `AddressSpace.findVirtual` — what a range is asked for;
* `AddressSpace.handlePageFault`, `AddressSpace.findPageTableEntry` — the first use of a page, and the entry of a page
  by way of the translation buffer;
* `AddressSpace.sysMmap`, `AddressSpace.sysMunmap`, `AddressSpace.sysMprotect`, `AddressSpace.sysBrk` — the system calls.
-/

import AtuaComputer.RadixTables
import Mathlib.Data.Int.Notation

set_option relaxedAutoImplicit false
set_option autoImplicit false

namespace AddressSpace

open RadixTables

/-- A table has entries. -/
scoped instance neZero_entries : NeZero 512 := ⟨by decide⟩

/-! ### State -/

/-- The bytes of a page. -/
abbrev Page := Fin 4096 → UInt8

/-- `PAGE_U`, `PAGE_RW` and `PAGE_XD`. -/
structure Prot where
  user : Bool
  write : Bool
  noExec : Bool
deriving DecidableEq

/-- Where the page of an entry is: nowhere yet (`PAGE_RSRV`), in a page of its own (`PAGE_HOST`), or in a page that
was mapped for it (`PAGE_HOST | PAGE_MAP | PAGE_MUG`), which is `PAGE_RSRV` until it is used. -/
inductive Backing where
  | demand
  | host (page : ℕ)
  | mug (page : ℕ) (rsrv : Bool)
deriving DecidableEq

/-- An entry of a last table that is `PAGE_V`. -/
structure Pte where
  prot : Prot
  backing : Backing
deriving DecidableEq

/-- `struct System`, `g_allocator`, `g_pagepool`, the memory that the pool's pages hold, and the machine's flag
`invalidated`.  A table is labelled with its own page. -/
structure System where
  cr3 : Table 512 ℕ Pte 4
  pages : List ℕ
  nextPage : ℕ
  capacity : ℕ
  mem : ℕ → Page
  committed : ℤ
  reserved : ℤ
  tables : ℤ
  vss : ℤ
  rss : ℤ
  memchurn : ℤ
  invalidated : Bool
  automap : ℤ
  brk : ℤ

/-- The errors of the system calls. -/
inductive Errno where
  | einval
  | enomem
  | enotsup
  | eexist
  | ebadf
  | eacces
  | eoverflow
deriving DecidableEq

/-- The level where the walk to a page stops. -/
def System.stop (s : System) (p : ℤ) : ℕ := RadixTables.stop 4 s.cr3 p

/-- The entry of a page. -/
def System.pte (s : System) (p : ℤ) : Option Pte := lookup 4 s.cr3 p

/-- Stores the entry of a page, in the last table on the way to it. -/
def System.storePte (s : System) (p : ℤ) (e : Option Pte) : System := { s with cr3 := store e 3 s.cr3 p }

/-- The pool stayed where it was between two states. -/
def InPlace (s s' : System) : Prop := s'.capacity = s.capacity

instance (s s' : System) : Decidable (InPlace s s') := inferInstanceAs (Decidable (_ = _))

/-! ### Pages from the pool -/

/-- The capacity after doubling it until there is room. -/
def growTo (need c : ℕ) : ℕ :=
  if 0 < c ∧ c < need then growTo need (c * 2) else c
termination_by need - c

/-- `AllocPoolPages` -/
def allocPoolPages (count : ℕ) (s : System) : ℕ × System :=
  (s.nextPage,
    { s with nextPage := s.nextPage + count, capacity := growTo (s.nextPage + count) s.capacity })

/-- `AllocateAnonymousPage` -/
def allocateAnonymousPage (s : System) : ℕ × System :=
  match s.pages with
  | page :: rest => (page, { s with pages := rest, rss := s.rss + 1 })
  | [] =>
    let (page, s) := allocPoolPages 64 s
    (page, { s with pages := List.range' (page + 1) 63, rss := s.rss + 1 })

/-- `AllocatePageTable` -/
def allocatePageTable (s : System) : ℕ × System :=
  let (page, s) := allocateAnonymousPage s
  (page, { s with tables := s.tables + 1 })

/-- Several tables, one after the other, each with whether the pool stayed in place. -/
def allocatePageTables : ℕ → System → List (ℕ × Bool) × System
  | 0, s => ([], s)
  | k + 1, s =>
    let (page, s₁) := allocatePageTable s
    let (rest, s₂) := allocatePageTables k s₁
    ((page, decide (InPlace s s₁)) :: rest, s₂)

/-- `FreePage`, for an entry that was taken out of its table.  Its changes of `rss` count at once, and what makes
`rss_delta` other than zero sets `invalidated`, as `InvalidateSystem` does at the end of the calls. -/
def freePage (e : Pte) (s : System) : System :=
  match e.backing with
  | .host page =>
    { s with
      committed := s.committed - 1
      mem := Function.update s.mem page fun _ => 0
      pages := page :: s.pages
      rss := s.rss - 1
      invalidated := true }
  | .mug _ true => { s with reserved := s.reserved - 1 }
  | .mug _ false => { s with committed := s.committed - 1, rss := s.rss - 1, invalidated := true }
  | .demand => { s with reserved := s.reserved - 1 }

/-- `FreePageTable`, for the last table on the way to a page, and the entry of it. -/
def freeLeaf (s : System) (p : ℤ) : System :=
  match leaf 3 s.cr3 p with
  | none => s
  | some l =>
    { s with
      cr3 := dropLeaf 2 s.cr3 p
      pages := l.1 :: s.pages
      tables := s.tables - 1
      rss := s.rss - 1 }

/-- `CleanseMemory`, with `FreeEmptyPageTables`: the first table is freed too when it is empty, and stays in use. -/
def cleanseMemory (s : System) : System :=
  if s.rss / 2 ≤ s.memchurn then
    let (freed, t) := prune 3 s.cr3
    { s with
      cr3 := t.getD (bare 3 s.cr3.1)
      pages := freed.reverse ++ s.pages
      tables := s.tables - freed.length
      rss := s.rss - freed.length
      memchurn := 0 }
  else s

/-! ### Ranges of pages -/

/-- `IsValidAddrSize` -/
def IsValidAddrSize (virt size : ℤ) : Prop :=
  0 < size ∧ virt % 4096 = 0 ∧ size ≤ 2 ^ 48 ∧ virt.bmod (2 ^ 48) + size ≤ 2 ^ 47

instance (virt size : ℤ) : Decidable (IsValidAddrSize virt size) :=
  inferInstanceAs (Decidable (_ ∧ _ ∧ _ ∧ _))

/-- The number of pages that hold some bytes. -/
def pagesOf (size : ℤ) : ℤ := (size + 4095) / 4096

/-- The number of pages of the span where the walk to a page stops. -/
def System.stride (s : System) (p : ℤ) : ℤ := 512 ^ s.stop p

theorem System.stride_pos (s : System) (p : ℤ) : 0 < s.stride p := pow_pos (by decide) _

/-- `IsFullyMapped`, from a page on to the end. -/
def isFullyMapped (s : System) (p e : ℤ) : Bool :=
  if p < e then
    if (s.pte p).isSome then isFullyMapped s (p + 1) e else false
  else true
termination_by (e - p).toNat

/-- `IsFullyUnmapped`, from a page on to the end. -/
def isFullyUnmapped (s : System) (p e : ℤ) : Bool :=
  if p < e then
    if (s.pte p).isSome then false else isFullyUnmapped s (p + s.stride p) e
  else true
termination_by (e - p).toNat
decreasing_by
  have := s.stride_pos p
  omega

/-- `FindVirtual`, after a number of steps of its loops: `got` pages from `p` on have been found unmapped. -/
def findVirtual (s : System) (size : ℤ) : ℕ → ℤ → ℤ → Option (Except Errno ℤ)
  | 0, _, _ => none
  | fuel + 1, p, got =>
    if got = 0 ∧ ¬ IsValidAddrSize (p * 4096) size then some (.error .enomem)
    else if (s.pte (p + got)).isSome then findVirtual s size fuel (p + got + 1) 0
    else if got + s.stride (p + got) < pagesOf size then findVirtual s size fuel p (got + s.stride (p + got))
    else some (.ok p)

/-- A page of `RemoveVirtual`, in a last table that is there. -/
def removePage (s : System) (p : ℤ) : System :=
  match s.pte p with
  | none => s
  | some e =>
    let s := freePage e (s.storePte p none)
    { s with vss := s.vss - 1 }

/-- `RemoveVirtual`, from a page on to the end.  It came down to the last table at the page `run`; when it has gone
through the whole table from its first entry, the table is freed. -/
def removeVirtual (s : System) (run p e : ℤ) : System :=
  if p < e then
    if s.stop p = 0 then
      let s := removePage s p
      if p + 1 < e ∧ p % 512 < 511 then removeVirtual s run (p + 1) e
      else if run % 512 = 0 ∧ p % 512 = 511 then removeVirtual (freeLeaf s p) (p + 1) (p + 1) e
      else removeVirtual s (p + 1) (p + 1) e
    else removeVirtual s (p + s.stride p) (p + s.stride p) e
  else s
termination_by (e - p).toNat
decreasing_by
  all_goals
    have := s.stride_pos p
    omega

/-- `FreeVirtual` -/
def freeVirtual (s : System) (virt size : ℤ) : Except Errno Unit × System :=
  if IsValidAddrSize virt size then
    let s' := removeVirtual s (virt / 4096) (virt / 4096) (virt / 4096 + pagesOf size)
    (.ok (), { s' with memchurn := s'.memchurn - (s'.vss - s.vss) })
  else (.error .einval, s)

/-! ### Mapping -/

/-- What a mapping shows: nothing yet, shared memory, or a file from an offset on (its bytes, and zeros behind its
end). -/
inductive Source where
  | anonymous
  | shared
  | file (contents : ℕ → UInt8) (offset : ℕ)

/-- The slot of the page table that `ReserveVirtual` has a pointer to: one of the tables, the copy that the pool
was moved away from, or one of a table that no table leads to. -/
inductive Slot where
  | linked
  | stale
  | lost
deriving DecidableEq

/-- The way down to the slot of a page: the tables that are missing are added, up to one whose entry goes to the
old block because the pool was moved. -/
def openSlot (s : System) (p : ℤ) : Slot × System :=
  let (new, s') := allocatePageTables (s.stop p) s
  let kept := new.takeWhile (·.2)
  (if kept.length = s.stop p then .linked else .lost,
    { s' with cr3 := graft 3 (kept.map (·.1)) s'.cr3 p })

/-- The bytes of a page of a mapping, with `room` bytes left of it. -/
def Source.page (room : ℤ) (n : ℕ) : Source → Page
  | .file contents offset => fun i => if (i : ℤ) < room then contents (offset + 4096 * n + i) else 0
  | _ => fun _ => 0

/-- `AllocateBig`, for a page of a mapping that shows something. -/
def allocateBig (bytes : Page) (s : System) : ℕ × System :=
  let (page, s) := allocPoolPages 1 s
  (page, { s with mem := Function.update s.mem page bytes })

/-- The entry that `ReserveVirtual` makes for a page. -/
def newEntry (prot : Prot) (src : Source) (room : ℤ) (n : ℕ) (s : System) : Pte × System :=
  match src with
  | .anonymous => (⟨prot, .demand⟩, s)
  | _ =>
    let (page, s) := allocateBig (src.page room n) s
    (⟨prot, .mug page true⟩, s)

/-- A page of `ReserveVirtual`, the `n`th of the range.  An entry that is replaced is freed. -/
def reservePage (prot : Prot) (src : Source) (room : ℤ) (n : ℕ) (slot : Slot) (p : ℤ) (s : System) :
    Slot × System :=
  let (e, s₁) := newEntry prot src room n s
  let slot := if slot = .linked ∧ ¬ InPlace s s₁ then .stale else slot
  let old := if slot = .lost then none else s₁.pte p
  let s₂ := if slot = .linked then s₁.storePte p (some e) else s₁
  (slot, (old.map fun e => freePage e s₂).getD s₂)

/-- The `n`th round of `ReserveVirtual`: at the beginning of a table the way down is taken anew. -/
def reserveStep (prot : Prot) (src : Source) (first size : ℤ) (n : ℕ) (st : Slot × System) : Slot × System :=
  let (slot, s) := if n = 0 ∨ (first + n) % 512 = 0 then openSlot st.2 (first + n) else st
  reservePage prot src (size - 4096 * n) n slot (first + n) s

/-- The first rounds of `ReserveVirtual`. -/
def reservePages (prot : Prot) (src : Source) (first size : ℤ) : ℕ → Slot × System → Slot × System
  | 0, st => st
  | n + 1, st => reserveStep prot src first size n (reservePages prot src first size n st)

/-- The offset of a mapped file is that of a page. -/
def Source.Aligned : Source → Prop
  | .file _ offset => offset % 4096 = 0
  | _ => True

instance : (src : Source) → Decidable src.Aligned
  | .file _ _ => inferInstanceAs (Decidable (_ = _))
  | .anonymous => .isTrue trivial
  | .shared => .isTrue trivial

/-- What `ReserveVirtual` does with a range that it accepts. -/
def mapRange (s : System) (p size : ℤ) (prot : Prot) (src : Source) : System :=
  let s := removeVirtual s p p (p + pagesOf size)
  let s := { s with vss := s.vss + pagesOf size, reserved := s.reserved + pagesOf size }
  (reservePages prot src p size (pagesOf size).toNat (.linked, s)).2

/-- `ReserveVirtual` -/
def reserveVirtual (s : System) (virt size : ℤ) (prot : Prot) (src : Source) : Except Errno ℤ × System :=
  if IsValidAddrSize virt size ∧ src.Aligned then (.ok virt, mapRange s (virt / 4096) size prot src)
  else (.error .einval, s)

/-! ### Protection -/

/-- `PROT_READ`, `PROT_WRITE` and `PROT_EXEC` -/
structure HostProt where
  read : Bool
  write : Bool
  exec : Bool
deriving DecidableEq

/-- `SetProtection` -/
def setProtection (prot : HostProt) : Prot := ⟨prot.read, prot.write, !prot.exec⟩

/-- `Prot2Page`: what may be written may be read. -/
def prot2Page (prot : HostProt) : Prot := ⟨prot.read || prot.write, prot.write, !prot.exec⟩

/-- The loop of `ProtectVirtual`, over `count` pages. -/
def protectPages (key : Prot) : ℕ → ℤ → System → System
  | 0, _, s => s
  | count + 1, p, s =>
    protectPages key count (p + 1) ((s.pte p).elim s fun e => s.storePte p (some { e with prot := key }))

/-- `ProtectVirtual` -/
def protectVirtual (s : System) (virt size : ℤ) (prot : HostProt) : Except Errno Unit × System :=
  if ¬ IsValidAddrSize virt size then (.error .einval, s)
  else if isFullyMapped s (virt / 4096) (virt / 4096 + pagesOf size) then
    (.ok (), { protectPages (setProtection prot) (pagesOf size).toNat (virt / 4096) s with invalidated := true })
  else (.error .enomem, s)

/-! ### The use of pages -/

/-- `HandlePageFault`: the entry is stored through a pointer into its table that was taken before. -/
def handlePageFault (s : System) (p : ℤ) (e : Pte) : Pte × System :=
  match e.backing with
  | .mug page true =>
    let e := { e with backing := .mug page false }
    let s := s.storePte p (some e)
    (e, { s with committed := s.committed + 1, reserved := s.reserved - 1, rss := s.rss + 1 })
  | .demand =>
    let (page, s₁) := allocateAnonymousPage s
    let e := { e with backing := .host page }
    let s₁ := if InPlace s s₁ then s₁.storePte p (some e) else s₁
    (e, { s₁ with committed := s₁.committed + 1, reserved := s₁.reserved - 1 })
  | _ => (e, s)

/-- `struct Machine`, with its translation buffer. -/
structure Machine where
  system : System
  tlb : Fin 32 → Option (ℤ × Pte)

/-- The place of a page in the translation buffer. -/
def tlbKey (p : ℤ) : Fin 32 := Fin.ofNat 32 (p % 32).toNat

/-- The addresses that have 48 bits. -/
def Canonical (p : ℤ) : Prop := -2 ^ 35 ≤ p ∧ p < 2 ^ 35

instance (p : ℤ) : Decidable (Canonical p) := inferInstanceAs (Decidable (_ ∧ _))

/-- The entry of a page in the translation buffer. -/
def Machine.cached (m : Machine) (p : ℤ) : Option Pte :=
  (m.tlb (tlbKey p)).bind fun c => if c.1 = p then some c.2 else none

/-- `ResetTlb`, when the machine was told to. -/
def Machine.refresh (m : Machine) : Machine :=
  if m.system.invalidated then
    { system := { m.system with invalidated := false }
      tlb := fun _ => none }
  else m

/-- The walk of `FindPageTableEntry`, for a page that the translation buffer doesn't know. -/
def walkTables (m : Machine) (p : ℤ) : Option Pte × Machine :=
  if Canonical p then
    match m.system.pte p with
    | none => (none, m)
    | some e =>
      let (e, s) := handlePageFault m.system p e
      (some e, { system := s, tlb := Function.update m.tlb (tlbKey p) (some (p, e)) })
  else (none, m)

/-- `FindPageTableEntry` -/
def findPageTableEntry (m : Machine) (p : ℤ) : Option Pte × Machine :=
  match m.refresh.cached p with
  | some e => (some e, m.refresh)
  | none => walkTables m.refresh p

/-- `GetPageAddress`, for an entry that isn't `PAGE_RSRV`. -/
def Pte.page (e : Pte) : Option ℕ :=
  match e.backing with
  | .host page => some page
  | .mug page false => some page
  | _ => none

/-- What an access needs, of `PAGE_U` and `PAGE_RW`. -/
structure Need where
  user : Bool
  write : Bool

/-- An entry has what an access needs. -/
def Allows (e : Pte) (need : Need) : Prop := (need.user → e.prot.user) ∧ (need.write → e.prot.write)

instance (e : Pte) (need : Need) : Decidable (Allows e need) := inferInstanceAs (Decidable (_ ∧ _))

/-- `LookupAddress2`, for a page: the host page, or nothing and a fault. -/
def lookupAddress2 (m : Machine) (p : ℤ) (need : Need) : Option ℕ × Machine :=
  match findPageTableEntry m p with
  | (none, m) => (none, m)
  | (some e, m) => if Allows e need then (e.page, m) else (none, m)

/-! ### The system calls -/

/-- The limits of a process, in pages. -/
structure Limits where
  maxVss : ℤ
  maxRss : ℤ

/-- An open file, as `mmap` sees it. -/
structure Descriptor where
  readOnly : Bool
  writeOnly : Bool
  append : Bool
  contents : ℕ → UInt8

/-- The flags of `mmap`; `typed` is `flags & MAP_TYPE` other than `MAP_FILE`. -/
structure MapFlags where
  growsDown : Bool
  fixed : Bool
  fixedNoreplace : Bool
  anonymous : Bool
  shared : Bool
  typed : Bool

/-- What is mapped, once the flags, the descriptor and the protection have been looked at. -/
def mapSource (prot : HostProt) (flags : MapFlags) (fildes : Option (Option Descriptor)) (offset : ℤ) :
    Except Errno Source :=
  if flags.anonymous then
    if flags.typed then .ok (if flags.shared then .shared else .anonymous) else .error .einval
  else if offset < 0 then .error .einval
  else
    match fildes with
    | none => .ok (if flags.shared then .shared else .anonymous)
    | some none => .error .ebadf
    | some (some d) =>
      if d.writeOnly || (prot.write && d.append) || (prot.write && flags.shared && d.readOnly) then .error .eacces
      else .ok (.file d.contents offset.toNat)

/-- Where a mapping goes, and where the next one is looked for if that was asked. -/
def placeMapping (s : System) (virt size : ℤ) (flags : MapFlags) (fuel : ℕ) : Option (Except Errno (ℤ × Option ℤ)) :=
  let vacant := isFullyUnmapped s (virt / 4096) (virt / 4096 + pagesOf size)
  if flags.fixed then some (.ok (virt, none))
  else if flags.fixedNoreplace then
    some (if vacant then .ok (virt, none) else .error .eexist)
  else if virt ≠ 0 ∧ vacant then some (.ok (virt, none))
  else
    (findVirtual s size fuel (s.automap / 4096) 0).map fun found =>
      found.map fun p => (p * 4096, some ((p + pagesOf size) * 4096))

/-- The beginning and the end of the addresses that are handed out, `FLAG_automapstart` and `FLAG_automapend`. -/
structure AutoMap where
  start : ℤ
  stop : ℤ

/-- `SysMmapImpl`; the number of steps of `FindVirtual` is limited. -/
def sysMmap (limits : Limits) (auto : AutoMap) (fuel : ℕ) (s : System) (virt size : ℤ) (prot : HostProt)
    (flags : MapFlags) (fildes : Option (Option Descriptor)) (offset : ℤ) : Option (Except Errno ℤ × System) :=
  if ¬ IsValidAddrSize virt size then some (.error .einval, s)
  else if flags.growsDown then some (.error .enotsup, s)
  else
    let s := cleanseMemory s
    if limits.maxRss ≤ s.rss then some (.error .enomem, s)
    else if limits.maxVss < size / 4096 + s.vss then some (.error .enomem, s)
    else
      match mapSource prot flags fildes offset with
      | .error err => some (.error err, s)
      | .ok src =>
        (placeMapping s virt size flags fuel).map fun place =>
          match place with
          | .error err => (.error err, s)
          | .ok (virt, next) =>
            match reserveVirtual s virt size (prot2Page prot) src, next with
            | (.ok virt, s), some a => (.ok virt, { s with automap := if auto.stop ≤ a then auto.start else a })
            | result, _ => result

/-- `SysMunmap` -/
def sysMunmap (s : System) (virt size : ℤ) : Except Errno Unit × System := freeVirtual s virt size

/-- `SysMprotect`, for protections without further bits.  The size is a `u64`, and has to be a `size_t`. -/
def sysMprotect (s : System) (virt size : ℤ) (prot : HostProt) : Except Errno Unit × System :=
  if 2 ^ 32 - 1 < size % 2 ^ 64 then (.error .eoverflow, s) else protectVirtual s virt size prot

/-- `SysBrk`: it answers with the break. -/
def sysBrk (limits : Limits) (s : System) (addr : ℤ) : ℤ × System :=
  let addr := (addr + 4095) / 4096 * 4096
  if addr < 2 ^ 21 then (s.brk, s)
  else if s.brk < addr then
    let s := cleanseMemory s
    if s.rss < limits.maxRss ∧ (addr - s.brk) / 4096 + s.vss < limits.maxVss then
      match reserveVirtual s s.brk (addr - s.brk) ⟨true, true, true⟩ .anonymous with
      | (.ok _, s') => (addr, { s' with brk := addr })
      | (.error _, s') => (s'.brk, s')
    else (s.brk, s)
  else if addr < s.brk then
    match freeVirtual s addr (s.brk - addr) with
    | (.ok _, s') => (addr, { s' with brk := addr })
    | (.error _, s') => (s'.brk, s')
  else (s.brk, s)

end AddressSpace
