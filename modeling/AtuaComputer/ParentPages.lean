/-
**Finding the parent's page addresses.**

A fork child copies guest pages out of its parent's memory, so the worker that boots it needs the
host-page addresses that `SerializeForkState` wrote.  `parseParentPageAddrs` does not compute where
they are: it takes the first word near an estimated offset that looks like a count and is followed by
something that looks like a page address.

Main definitions:

* `ParentPages.looksRight` — the test the scan applies to an offset;
* `ParentPages.scan` — the scan;
* `ParentPages.parseParentPageAddrs` — the parser.

Main results:

* `ParentPages.getUint32s_serialize` — where the addresses really are;
* `ParentPages.length_parse` — the parser returns no address or at least ten;
* `ParentPages.parse_serialize_iff` — exactly when it returns the serialized addresses.
-/

import AtuaComputer.ForkState

set_option relaxedAutoImplicit false
set_option autoImplicit false

namespace ParentPages

open Blink ForkState

/-! ### The parser -/

/-- `view.getUint32(off, true)`; every offset it is called with is inside the buffer. -/
def getUint32 (bs : List UInt8) (off : ℕ) : UInt32 :=
  (Codec.u32.read (bs.drop off)).1

/-- The loop that reads `n` words one after the other. -/
def getUint32s (bs : List UInt8) : ℕ → ℕ → List UInt32
  | _, 0 => []
  | off, n + 1 => getUint32 bs off :: getUint32s bs (off + 4) n

/-- The estimated offset of the host-page section.  It counts eight bytes for the flags, of which the
serializer writes four. -/
def hostPagesOffset : ℕ :=
  128 + 256 + 8 + 8 + 128 + 16 + 16 + 8 + 8 + 4 + 2048 + 8 + 8 + 8 + 4 + 256 + 8

/-- An address that looks like one of a page in WASM memory. -/
def looksLikePage (addr : UInt32) : Bool :=
  0 < addr && addr < 0x20000000 && addr &&& 0xFFF == 0

/-- Whether an offset looks like the start of the section: a count, room for that many addresses and
the pool metadata, and an address. -/
def looksRight (bs : List UInt8) (probe : ℕ) : Bool :=
  let pn := (getUint32 bs probe).toNat
  decide (10 ≤ pn) && decide (pn < 50000) && decide (probe + 4 + pn * 4 + 12 ≤ bs.length) &&
    looksLikePage (getUint32 bs (probe + 4))

/-- The offsets the scan visits: every fourth one within 200 of the estimate, up to the last word of
the buffer. -/
def probes (bs : List UInt8) : List ℕ :=
  (List.range' (hostPagesOffset - 200) 101 4).filter fun probe => probe + 4 ≤ bs.length

/-- The scan: the first offset that looks right. -/
def scan (bs : List UInt8) : Option ℕ := (probes bs).find? (looksRight bs)

/-- `parseParentPageAddrs` -/
def parseParentPageAddrs (bs : List UInt8) : List UInt32 :=
  match scan bs with
  | none => []
  | some off =>
    let n := (getUint32 bs off).toNat
    if bs.length < off + 4 + n * 4 then [] else getUint32s bs (off + 4) n

/-! ### The scan -/

theorem mem_probes {bs : List UInt8} {q : ℕ} :
    q ∈ probes bs ↔ (∃ i < 101, q = 2720 + 4 * i) ∧ q + 4 ≤ bs.length := by
  simp [probes, hostPagesOffset, List.mem_range', and_comm]

theorem pairwise_probes (bs : List UInt8) : (probes bs).Pairwise (· < ·) :=
  (List.pairwise_lt_range' _).filter _

/-- In an increasing list the first element with a property is the least one. -/
theorem find?_eq_some_of_pairwise {l : List ℕ} (hl : l.Pairwise (· < ·)) {p : ℕ → Bool} {q : ℕ} :
    l.find? p = some q ↔ q ∈ l ∧ p q = true ∧ ∀ q' ∈ l, q' < q → p q' = false := by
  induction l with
  | nil => simp
  | cons a l ih =>
      rw [List.pairwise_cons] at hl
      by_cases ha : p a = true
      · rw [List.find?_cons_of_pos ha, Option.some_inj]
        constructor
        · rintro rfl
          refine ⟨List.mem_cons_self, ha, fun q' hq' hlt => ?_⟩
          rcases List.mem_cons.1 hq' with rfl | hq'
          · exact absurd hlt (lt_irrefl _)
          · exact absurd (hl.1 q' hq') (Nat.lt_asymm hlt)
        · rintro ⟨hq, -, hmin⟩
          rcases List.mem_cons.1 hq with rfl | hq
          · rfl
          · exact absurd ha (by simp [hmin a List.mem_cons_self (hl.1 q hq)])
      · rw [List.find?_cons_of_neg ha, ih hl.2]
        constructor
        · rintro ⟨hq, hp, hmin⟩
          refine ⟨List.mem_cons_of_mem _ hq, hp, fun q' hq' hlt => ?_⟩
          rcases List.mem_cons.1 hq' with rfl | hq'
          · exact Bool.eq_false_iff.2 ha
          · exact hmin q' hq' hlt
        · rintro ⟨hq, hp, hmin⟩
          refine ⟨(List.mem_cons.1 hq).resolve_left ?_, hp, fun q' hq' =>
            hmin q' (List.mem_cons_of_mem _ hq')⟩
          rintro rfl
          exact ha hp

/-- The scan stops at the first offset that looks right. -/
theorem scan_eq_some {bs : List UInt8} {q : ℕ} :
    scan bs = some q ↔
      q ∈ probes bs ∧ looksRight bs q = true ∧
        ∀ q' ∈ probes bs, q' < q → looksRight bs q' = false :=
  find?_eq_some_of_pairwise (pairwise_probes bs)

theorem scan_eq_none {bs : List UInt8} :
    scan bs = none ↔ ∀ q ∈ probes bs, looksRight bs q = false := by
  simp [scan]

theorem looksRight_iff {bs : List UInt8} {q : ℕ} :
    looksRight bs q = true ↔
      10 ≤ (getUint32 bs q).toNat ∧ (getUint32 bs q).toNat < 50000 ∧
        q + 4 + (getUint32 bs q).toNat * 4 + 12 ≤ bs.length ∧
        looksLikePage (getUint32 bs (q + 4)) = true := by
  simp [looksRight, and_assoc]

@[simp] theorem length_getUint32s (bs : List UInt8) (off n : ℕ) :
    (getUint32s bs off n).length = n := by
  induction n generalizing off with
  | zero => rfl
  | succ n ih => rw [getUint32s, List.length_cons, ih]

theorem parse_of_scan_eq_none {bs : List UInt8} (h : scan bs = none) :
    parseParentPageAddrs bs = [] := by
  rw [parseParentPageAddrs, h]

/-- The second length check of the parser never fails: the scan made a stronger one. -/
theorem parse_of_scan_eq_some {bs : List UInt8} {q : ℕ} (h : scan bs = some q) :
    parseParentPageAddrs bs = getUint32s bs (q + 4) (getUint32 bs q).toNat := by
  obtain ⟨-, hp, -⟩ := scan_eq_some.1 h
  obtain ⟨-, -, hlen, -⟩ := looksRight_iff.1 hp
  rw [parseParentPageAddrs, h]
  exact if_neg (by omega)

/-- **The parser returns nothing, or a list that passes the test of the scan.** -/
theorem length_parse (bs : List UInt8) :
    parseParentPageAddrs bs = [] ∨
      10 ≤ (parseParentPageAddrs bs).length ∧ (parseParentPageAddrs bs).length < 50000 ∧
        ∃ a ∈ (parseParentPageAddrs bs).head?, looksLikePage a = true := by
  cases h : scan bs with
  | none => exact Or.inl (parse_of_scan_eq_none h)
  | some q =>
      obtain ⟨-, hp, -⟩ := scan_eq_some.1 h
      obtain ⟨hlo, hhi, -, hpage⟩ := looksRight_iff.1 hp
      rw [parse_of_scan_eq_some h, length_getUint32s]
      refine Or.inr ⟨hlo, hhi, getUint32 bs (q + 4), ?_, hpage⟩
      obtain ⟨n, hn⟩ : ∃ n, (getUint32 bs q).toNat = n + 1 := ⟨(getUint32 bs q).toNat - 1, by omega⟩
      rw [hn]
      rfl

/-! ### Where the addresses are -/

/-- Reading words by offset is reading them one after the other. -/
theorem getUint32s_eq_readList (bs : List UInt8) (off n : ℕ) :
    getUint32s bs off n = (Codec.u32.readList n (bs.drop off)).1 := by
  induction n generalizing off with
  | zero => rfl
  | succ n ih =>
      have hrest : (Codec.u32.read (bs.drop off)).2 = bs.drop (off + 4) := List.drop_drop
      rw [getUint32s, ih, ← hrest]
      rfl

/-- The offset the serializer puts the host-page section at. -/
def sectionOffset : ℕ := 2916

/-- What the serializer writes from the host-page section on. -/
def fromSection (p : Source) : List UInt8 :=
  Codec.u32.enc (UInt32.ofNat p.hostPages.length) ++ (p.hostPages.flatMap Codec.u32.enc ++
    (Codec.u32.enc p.pagePool.base ++ (Codec.u32.enc p.pagePool.nextPage ++
      (Codec.u32.enc (p.pagePool.capacity / 4096) ++
        (fdTableBytes p.machine.system.fds ++ fileMapsBytes p.machine.system.filemaps)))))

theorem drop_serialize (p : Source) : (serialize p).drop sectionOffset = fromSection p := by
  have hcut : serialize p = (cpuBytes p.machine ++ systemBytes p.machine.system) ++ fromSection p := by
    simp only [serialize, hostPageBytes, fromSection, List.append_assoc]
  have hlen := length_cpu_system p.machine p.machine.system
  rw [hcut]
  exact List.drop_left' hlen

/-- The count is at the offset of the section. -/
theorem getUint32_serialize (p : Source) :
    (getUint32 (serialize p) sectionOffset).toNat = p.hostPages.length := by
  rw [getUint32, drop_serialize, fromSection, Codec.read_enc]
  exact UInt32.toNat_ofNat_of_lt (by have := p.hostPages_lt; rw [UInt32.size]; omega)

/-- **The addresses follow the count.** -/
theorem getUint32s_serialize (p : Source) :
    getUint32s (serialize p) (sectionOffset + 4) p.hostPages.length = p.hostPages := by
  have hrest : (Codec.u32.read ((serialize p).drop sectionOffset)).2 =
      (serialize p).drop (sectionOffset + 4) := List.drop_drop
  rw [getUint32s_eq_readList, ← hrest, drop_serialize, fromSection, Codec.read_enc,
    Codec.readList_enc]

theorem length_serialize_ge (p : Source) :
    sectionOffset + 4 + p.hostPages.length * 4 + 16 ≤ (serialize p).length := by
  have hdrop := congrArg List.length (drop_serialize p)
  simp only [List.length_drop, fromSection, List.length_append, Codec.length_enc,
    Codec.length_flatMap_enc, fdTableBytes, Codec.size_u32, Codec.size_i32] at hdrop
  omega

/-- The count and the first address pass the test of the scan. -/
def Recognisable (pages : List UInt32) : Prop :=
  10 ≤ pages.length ∧ pages.length < 50000 ∧ ∃ a ∈ pages.head?, looksLikePage a = true

theorem looksRight_sectionOffset (p : Source) :
    looksRight (serialize p) sectionOffset = true ↔ Recognisable p.hostPages := by
  have hlen := length_serialize_ge p
  have hpages := getUint32s_serialize p
  rw [looksRight_iff, getUint32_serialize, Recognisable]
  refine and_congr_right fun hlo => and_congr_right fun _ => ?_
  rw [and_iff_right (by omega)]
  cases hp : p.hostPages with
  | nil => simp [hp] at hlo
  | cons a pages =>
      rw [hp, List.length_cons, getUint32s, List.cons_eq_cons] at hpages
      simp [hpages.1]

theorem sectionOffset_mem_probes (p : Source) : sectionOffset ∈ probes (serialize p) := by
  have hlen := length_serialize_ge p
  exact mem_probes.2 ⟨⟨49, by omega, rfl⟩, by omega⟩

/-! ### When the parser is right -/

/-- An offset before the section that looks like one: it lies in the resource limits or in the word
after them. -/
def Decoy (bs : List UInt8) (q : ℕ) : Prop :=
  q ∈ probes bs ∧ q < sectionOffset ∧ looksRight bs q = true

/-- The words from an offset on repeat a count and a list of addresses. -/
def CopyAt (bs : List UInt8) (q : ℕ) (pages : List UInt32) : Prop :=
  (getUint32 bs q).toNat = pages.length ∧ getUint32s bs (q + 4) pages.length = pages

/-- The first offset before the section that looks like one, if any does, starts a copy of it. -/
def HarmlessDecoys (p : Source) : Prop :=
  ∀ q, Decoy (serialize p) q → (∀ q' < q, ¬ Decoy (serialize p) q') →
    CopyAt (serialize p) q p.hostPages

/-- What the parser can recognise, and is not misled about, it returns. -/
theorem parse_of_recognisable {p : Source} (hrec : Recognisable p.hostPages)
    (hdecoys : HarmlessDecoys p) : parseParentPageAddrs (serialize p) = p.hostPages := by
  have hsec := (looksRight_sectionOffset p).2 hrec
  cases hscan : scan (serialize p) with
  | none =>
      rw [scan_eq_none.1 hscan _ (sectionOffset_mem_probes p)] at hsec
      exact absurd hsec (by decide)
  | some q =>
      obtain ⟨hq, hpl, hmin⟩ := scan_eq_some.1 hscan
      rw [parse_of_scan_eq_some hscan]
      rcases Nat.lt_trichotomy q sectionOffset with hlt | heq | hgt
      · have hleast : ∀ q' < q, ¬ Decoy (serialize p) q' := fun q' hlt' hd =>
          absurd hd.2.2 (by simp [hmin q' hd.1 hlt'])
        obtain ⟨hcount, hwords⟩ := hdecoys q ⟨hq, hlt, hpl⟩ hleast
        rw [hcount, hwords]
      · rw [heq, getUint32_serialize, getUint32s_serialize]
      · exact absurd hsec (by simp [hmin _ (sectionOffset_mem_probes p) hgt])

/-- A list that the parser returns is recognisable, and no decoy misled the parser. -/
theorem recognisable_of_parse {p : Source} {q : ℕ} (hscan : scan (serialize p) = some q)
    (h : parseParentPageAddrs (serialize p) = p.hostPages) :
    Recognisable p.hostPages ∧ HarmlessDecoys p := by
  obtain ⟨hq, hpl, hmin⟩ := scan_eq_some.1 hscan
  have hparse := parse_of_scan_eq_some hscan
  constructor
  · rcases length_parse (serialize p) with hnil | hrec
    · rw [hparse] at hnil
      have hlen := congrArg List.length hnil
      rw [length_getUint32s, List.length_nil] at hlen
      have hten := (looksRight_iff.1 hpl).1
      omega
    · rwa [h] at hrec
  · intro q' hq' hleast
    have hqq : q' = q := by
      rcases Nat.lt_trichotomy q' q with hlt | heq | hgt
      · exact absurd hq'.2.2 (by simp [hmin q' hq'.1 hlt])
      · exact heq
      · exact absurd ⟨hq, hgt.trans hq'.2.1, hpl⟩ (hleast q hgt)
    subst hqq
    have hcount : (getUint32 (serialize p) q').toNat = p.hostPages.length := by
      rw [← h, hparse, length_getUint32s]
    refine ⟨hcount, ?_⟩
    rw [← hcount, ← hparse, h]

/-- **When the addresses are found.**  Either there are none and no word within reach of the scan
looks like a count, or the count and the first address look right and the words before the section do
not mislead the scan: the first of them that looks like a count, if any does, has to be followed by a
copy of the list. -/
theorem parse_serialize_iff (p : Source) :
    parseParentPageAddrs (serialize p) = p.hostPages ↔
      (p.hostPages = [] ∧ ∀ q ∈ probes (serialize p), looksRight (serialize p) q = false) ∨
        (Recognisable p.hostPages ∧ HarmlessDecoys p) := by
  constructor
  · intro h
    cases hscan : scan (serialize p) with
    | none =>
        rw [parse_of_scan_eq_none hscan] at h
        exact Or.inl ⟨h.symm, scan_eq_none.1 hscan⟩
    | some q => exact Or.inr (recognisable_of_parse hscan h)
  · rintro (⟨hnil, hnone⟩ | ⟨hrec, hdecoys⟩)
    · rw [parse_of_scan_eq_none (scan_eq_none.2 hnone), hnil]
    · exact parse_of_recognisable hrec hdecoys

/-- The last two fields before the section are the resource limits and the host's signals. -/
theorem drop_serialize_rlim (p : Source) :
    (serialize p).drop 2652 =
      p.machine.system.rlim.bytes ++ (Codec.u64.enc p.machine.system.blinksigs ++ fromSection p) := by
  have hbeg : p.machine.beg.bytes.length = 128 := p.machine.beg.length_eq
  have hxmm : p.machine.xmm.bytes.length = 256 := p.machine.xmm.length_eq
  have hhands : p.machine.system.hands.bytes.length = 2048 := p.machine.system.hands.length_eq
  have hcut : serialize p = (cpuBytes p.machine ++ (p.machine.system.hands.bytes ++
      (Codec.i64.enc p.machine.system.brk ++ (Codec.i64.enc p.machine.system.automap ++
        (Codec.u64.enc p.machine.system.cr3 ++ Codec.i32.enc p.machine.system.pid))))) ++
      (p.machine.system.rlim.bytes ++
        (Codec.u64.enc p.machine.system.blinksigs ++ fromSection p)) := by
    simp only [serialize, systemBytes, hostPageBytes, fromSection, List.append_assoc]
  rw [hcut]
  exact List.drop_left' (by simp [cpuBytes, hbeg, hxmm, hhands])

/-- **A process without resource limits and pending host signals has no decoy.** -/
theorem not_decoy_of_zero {p : Source} (hrlim : p.machine.system.rlim = Block.zero 256)
    (hsigs : p.machine.system.blinksigs = 0) (q : ℕ) : ¬ Decoy (serialize p) q := by
  rintro ⟨hq, hlt, hpl⟩
  obtain ⟨⟨i, hi, rfl⟩, -⟩ := mem_probes.1 hq
  obtain ⟨n, hn⟩ : ∃ n, 192 - 4 * i = n := ⟨_, rfl⟩
  have hwords : (serialize p).drop (2720 + 4 * i) =
      Codec.u32.enc 0 ++ (List.replicate n 0 ++ fromSection p) := by
    have hzeros : Codec.u64.enc 0 = List.replicate 8 0 := by decide
    have hzero : Codec.u32.enc 0 = List.replicate 4 0 := by decide
    have hcut : (2720 + 4 * i) = 2652 + (68 + 4 * i) := by omega
    have hlen : 68 + 4 * i ≤ 264 := by rw [sectionOffset] at hlt; omega
    have hrest : 264 - (68 + 4 * i) = 4 + n := by rw [sectionOffset] at hlt; omega
    rw [hcut, ← List.drop_drop, drop_serialize_rlim, hrlim, hsigs, hzeros, hzero, Block.zero,
      ← List.append_assoc, ← List.append_assoc, List.replicate_append_replicate,
      List.replicate_append_replicate, List.drop_append_of_le_length (by rw [List.length_replicate]; exact hlen),
      List.drop_replicate, ← hrest]
  have hcount : getUint32 (serialize p) (2720 + 4 * i) = 0 := by
    rw [getUint32, hwords, Codec.read_enc]
  have hten := (looksRight_iff.1 hpl).1
  rw [hcount] at hten
  exact absurd hten (by decide)

/-- A machine has no descriptor and no mapping at first. -/
theorem default_fds_lt : (default : Machine).system.fds.length < 2 ^ 31 := by decide

theorem default_filemaps_lt : (default : Machine).system.filemaps.length < 2 ^ 31 := by decide

theorem default_path_lt : ∀ fm ∈ (default : Machine).system.filemaps, fm.path.bytes.length < 2 ^ 31 := by
  simp [default, instInhabitedMachine.default, instInhabitedSystem.default]

theorem onePage_lt : [(0x10000 : UInt32)].length < 2 ^ 31 := by decide

/-- A process with one page. -/
def onePage : Source where
  machine := default
  hostPages := [0x10000]
  pagePool := { base := 0x10000, nextPage := 1, capacity := 0x800000 }
  hostPages_lt := onePage_lt
  fds_lt := default_fds_lt
  filemaps_lt := default_filemaps_lt
  path_lt := default_path_lt

/-- The single page of a process is not found. -/
theorem parse_onePage : parseParentPageAddrs (serialize onePage) ≠ onePage.hostPages := by
  intro h
  rcases length_parse (serialize onePage) with hnil | ⟨hten, -⟩
  · rw [h] at hnil
    exact absurd hnil (by decide)
  · rw [h] at hten
    exact absurd hten (by decide)

end ParentPages
