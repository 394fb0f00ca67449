/-
**Serializing and restoring a fork.**

A fork that cannot be run in the parent's machine is shipped to another worker: `SerializeForkState`
writes the machine, the host-page addresses, the descriptors and the file-backed mappings into one
buffer, and `RestoreForkCpuState` reads it into the machine that `restore_fork` has just built.  The
two visit the fields in the same order, so everything of fixed size comes back; the two lists are
rebuilt by insertion at the front, onto a descriptor list that already has the terminal in it.

Main definitions:

* `ForkState.Source` — what a fork writes, with the bounds a 32-bit address space puts on it;
* `ForkState.serialize` — `SerializeForkState`;
* `ForkState.restore` — `RestoreForkCpuState`;
* `ForkState.RoundTrip` — what a faithful copy would be.

Main results:

* `ForkState.restore_serialize` — exactly what the child gets, for every source;
* `ForkState.not_roundTrip` — it is never a faithful copy: the descriptors differ;
* `ForkState.getFileMap_restored` — mappings with short paths that do not overlap are found again.
-/

import AtuaComputer.BlinkMachine

set_option relaxedAutoImplicit false
set_option autoImplicit false

namespace ForkState

open Blink

/-! ### The format -/

/-- A segment register takes 16 bytes, padding included. -/
def descriptorCache : Codec DescriptorCache :=
  (Codec.u16.prod ((Codec.block 6).prod Codec.u64)).map (fun p => ⟨p.1, p.2.1, p.2.2⟩)
    (fun d => (d.sel, d.pad, d.base)) fun _ => rfl

/-- A descriptor takes 16 bytes. -/
def fdCodec : Codec Fd :=
  (Codec.i32.prod (Codec.i32.prod (Codec.i32.prod Codec.i32))).map
    (fun p => ⟨p.1, p.2.1, p.2.2.1, p.2.2.2⟩)
    (fun fd => (fd.fildes, fd.oflags, fd.atuaType, fd.atuaHostHandle)) fun _ => rfl

@[simp] theorem size_descriptorCache : descriptorCache.size = 16 := rfl
@[simp] theorem size_fdCodec : fdCodec.size = 16 := rfl

/-- The page pool of a process (`g_pagepool`): its first byte, the next page to hand out and its size
in bytes. -/
structure PagePool where
  base : UInt32
  nextPage : UInt32
  capacity : UInt32
deriving DecidableEq, Inhabited

/-- What `SerializeForkState` reads.  The bounds are those of a wasm32 process: its lists and strings
lie in an address space of `2 ^ 32` bytes, where an element of a list takes more than two. -/
structure Source where
  machine : Machine
  /-- The host-page table (`g_hostpages`): the address of each page, 0 while it has none. -/
  hostPages : List UInt32
  pagePool : PagePool
  hostPages_lt : hostPages.length < 2 ^ 31
  fds_lt : machine.system.fds.length < 2 ^ 31
  filemaps_lt : machine.system.filemaps.length < 2 ^ 31
  path_lt : ∀ fm ∈ machine.system.filemaps, fm.path.bytes.length < 2 ^ 31

/-- The registers, the segments and the thread's own words. -/
def cpuBytes (m : Machine) : List UInt8 :=
  m.beg.bytes ++ m.xmm.bytes ++ Codec.u64.enc m.ip ++ Codec.u32.enc m.flags ++
    (descriptorCache.vec 8).enc m.seg ++ descriptorCache.enc m.fs ++ descriptorCache.enc m.gs ++
    Codec.u64.enc m.sigmask ++ Codec.i64.enc m.ctid ++ Codec.i32.enc m.tid

/-- The words of the system. -/
def systemBytes (s : System) : List UInt8 :=
  s.hands.bytes ++ Codec.i64.enc s.brk ++ Codec.i64.enc s.automap ++ Codec.u64.enc s.cr3 ++
    Codec.i32.enc s.pid ++ s.rlim.bytes ++ Codec.u64.enc s.blinksigs

/-- The host-page section: a count, the addresses and three words about the pool. -/
def hostPageBytes (pages : List UInt32) (pool : PagePool) : List UInt8 :=
  Codec.u32.enc (UInt32.ofNat pages.length) ++ pages.flatMap Codec.u32.enc ++
    Codec.u32.enc pool.base ++ Codec.u32.enc pool.nextPage ++ Codec.u32.enc (pool.capacity / 4096)

/-- The descriptor section. -/
def fdTableBytes (fds : List Fd) : List UInt8 :=
  Codec.i32.enc (Int32.ofNat fds.length) ++ fds.flatMap fdCodec.enc

/-- One file-backed mapping: three words and the path with its length in front. -/
def fileMapBytes (fm : FileMap) : List UInt8 :=
  Codec.i64.enc fm.virt ++ Codec.i64.enc fm.size ++ Codec.i64.enc fm.offset ++
    Codec.i32.enc (Int32.ofNat fm.path.bytes.length) ++ fm.path.bytes

/-- The section of the file-backed mappings. -/
def fileMapsBytes (filemaps : List FileMap) : List UInt8 :=
  Codec.i32.enc (Int32.ofNat filemaps.length) ++ filemaps.flatMap fileMapBytes

/-- `SerializeForkState` -/
def serialize (p : Source) : List UInt8 :=
  cpuBytes p.machine ++ systemBytes p.machine.system ++ hostPageBytes p.hostPages p.pagePool ++
    fdTableBytes p.machine.system.fds ++ fileMapsBytes p.machine.system.filemaps

/-- The two fixed-size sections before the host pages take 2916 bytes. -/
theorem length_cpu_system (m : Machine) (s : System) :
    (cpuBytes m ++ systemBytes s).length = 2916 := by
  have hbeg : m.beg.bytes.length = 128 := m.beg.length_eq
  have hxmm : m.xmm.bytes.length = 256 := m.xmm.length_eq
  have hhands : s.hands.bytes.length = 2048 := s.hands.length_eq
  have hrlim : s.rlim.bytes.length = 256 := s.rlim.length_eq
  simp [cpuBytes, systemBytes, hbeg, hxmm, hhands, hrlim]

/-! ### Restoring -/

/-- A mapping as the JavaScript side is told about it (`atua_register_filemap`). -/
structure FileMapRegistration where
  virt : Int64
  size : Int64
  offset : Int64
  path : List UInt8
deriving DecidableEq

/-- What `RestoreForkCpuState` leaves behind. -/
structure Restored where
  machine : Machine
  /-- The child's host-page table: as long as the parent's, every entry null. -/
  hostPages : List (Option UInt32)
  /-- The argument of `SetHostPageSabCount`. -/
  sabCount : ℕ
  /-- The calls of `atua_register_filemap`. -/
  registered : List FileMapRegistration

/-- Reading the registers, the segments and the thread's own words. -/
def restoreCpu (m : Machine) (r : List UInt8) : Machine × List UInt8 :=
  let (beg, r) := (Codec.block 128).read r
  let (xmm, r) := (Codec.block 256).read r
  let (ip, r) := Codec.u64.read r
  let (flags, r) := Codec.u32.read r
  let (seg, r) := (descriptorCache.vec 8).read r
  let (fs, r) := descriptorCache.read r
  let (gs, r) := descriptorCache.read r
  let (sigmask, r) := Codec.u64.read r
  let (ctid, r) := Codec.i64.read r
  let (tid, r) := Codec.i32.read r
  ({ m with
      beg, xmm, ip, flags, sigmask, ctid, tid
      seg := Function.update (Function.update seg 4 fs) 5 gs }, r)

/-- Reading the words of the system. -/
def restoreSystem (s : System) (r : List UInt8) : System × List UInt8 :=
  let (hands, r) := (Codec.block 2048).read r
  let (brk, r) := Codec.i64.read r
  let (automap, r) := Codec.i64.read r
  let (cr3, r) := Codec.u64.read r
  let (pid, r) := Codec.i32.read r
  let (rlim, r) := (Codec.block 256).read r
  let (blinksigs, r) := Codec.u64.read r
  ({ s with hands, brk, automap, cr3, pid, rlim, blinksigs }, r)

/-- Reading the host-page section: only its length is kept. -/
def restoreHostPages (r : List UInt8) : ℕ × List UInt8 :=
  let (n, r) := Codec.u32.read r
  let (_, r) := Codec.u32.readList n.toNat r
  let (_, r) := Codec.u32.read r
  let (_, r) := Codec.u32.read r
  let (_, r) := Codec.u32.read r
  (n.toNat, r)

/-- The loop over the descriptors: each is added to the list as it is read. -/
def restoreFds : ℕ → List Fd → List UInt8 → List Fd × List UInt8
  | 0, fds, r => (fds, r)
  | n + 1, fds, r =>
    let (fd, r) := fdCodec.read r
    restoreFds n (addFd fds fd) r

/-- The path buffer of the restore loop (`char pathbuf[512]`). -/
def pathbufSize : ℕ := 512

/-- The loop over the mappings: one with a path that fits the buffer is registered and added, a longer
path is skipped. -/
def restoreFileMaps : ℕ → List FileMap → List FileMapRegistration → List UInt8 →
    List FileMap × List FileMapRegistration × List UInt8
  | 0, fms, regs, r => (fms, regs, r)
  | n + 1, fms, regs, r =>
    let (virt, r) := Codec.i64.read r
    let (size, r) := Codec.i64.read r
    let (offset, r) := Codec.i64.read r
    let (pathlen, r) := Codec.i32.read r
    let len := pathlen.toInt.toNat
    if 0 < len ∧ len < pathbufSize then
      restoreFileMaps n (addFileMap fms virt size (CString.ofBytes (r.take len)) offset)
        (regs ++ [{ virt, size, offset, path := r.take len }]) (r.drop len)
    else
      -- the skip of an oversized path; it skips nothing when there is no path
      restoreFileMaps n fms regs (r.drop len)

/-- `RestoreForkCpuState`, with what is left of the buffer. -/
def restore (m : Machine) (buf : List UInt8) : Restored × List UInt8 :=
  let (m, r) := restoreCpu m buf
  let (s, r) := restoreSystem m.system r
  let (n, r) := restoreHostPages r
  let (fdCount, r) := Codec.i32.read r
  let (fds, r) := restoreFds fdCount.toInt.toNat s.fds r
  let (fmCount, r) := Codec.i32.read r
  let (filemaps, registered, r) := restoreFileMaps fmCount.toInt.toNat s.filemaps [] r
  ({ machine := { m with system := { s with fds, filemaps } }
     hostPages := List.replicate n none
     sabCount := n
     registered }, r)

/-! ### What comes back -/

theorem restoreCpu_cpuBytes (m₀ m : Machine) (rest : List UInt8) :
    restoreCpu m₀ (cpuBytes m ++ rest) =
      ({ m₀ with
          beg := m.beg, xmm := m.xmm, ip := m.ip, flags := m.flags, sigmask := m.sigmask
          ctid := m.ctid, tid := m.tid, seg := m.seg }, rest) := by
  have hseg : Function.update (Function.update m.seg 4 m.fs) 5 m.gs = m.seg := by
    rw [Function.update_eq_self, Function.update_eq_self]
  simp only [restoreCpu, cpuBytes, List.append_assoc, Codec.read_block, Codec.read_enc, hseg]

theorem restoreSystem_systemBytes (s₀ s : System) (rest : List UInt8) :
    restoreSystem s₀ (systemBytes s ++ rest) =
      ({ s₀ with
          hands := s.hands, brk := s.brk, automap := s.automap, cr3 := s.cr3, pid := s.pid
          rlim := s.rlim, blinksigs := s.blinksigs }, rest) := by
  simp only [restoreSystem, systemBytes, List.append_assoc, Codec.read_block, Codec.read_enc]

theorem restoreHostPages_hostPageBytes {pages : List UInt32} (h : pages.length < 2 ^ 31)
    (pool : PagePool) (rest : List UInt8) :
    restoreHostPages (hostPageBytes pages pool ++ rest) = (pages.length, rest) := by
  have hn : (UInt32.ofNat pages.length).toNat = pages.length :=
    UInt32.toNat_ofNat_of_lt (by rw [UInt32.size]; omega)
  simp only [restoreHostPages, hostPageBytes, List.append_assoc, Codec.read_enc, hn,
    Codec.readList_enc]

/-- A count below `2 ^ 31` is read back from the `int` it was written as. -/
theorem toNat_toInt_ofNat {n : ℕ} (h : n < 2 ^ 31) : (Int32.ofNat n).toInt.toNat = n := by
  rw [Int32.toInt_ofNat_of_lt h, Int.toNat_natCast]

theorem restoreFds_enc (fds₀ fds : List Fd) (rest : List UInt8) :
    restoreFds fds.length fds₀ (fds.flatMap fdCodec.enc ++ rest) =
      (fds.foldl addFd fds₀, rest) := by
  induction fds generalizing fds₀ with
  | nil => rfl
  | cons fd fds ih =>
      rw [List.flatMap_cons, List.append_assoc, List.length_cons, restoreFds]
      simp only [Codec.read_enc, ih, List.foldl_cons]

/-- The mapping has a path, and one that fits the buffer of the restore loop. -/
def Fits (fm : FileMap) : Prop :=
  0 < fm.path.bytes.length ∧ fm.path.bytes.length < pathbufSize

instance (fm : FileMap) : Decidable (Fits fm) := inferInstanceAs (Decidable (_ ∧ _))

/-- A mapping with every page present, as `AddFileMap` makes it. -/
def fresh (fm : FileMap) : FileMap :=
  { fm with present := List.replicate ((fm.size.toInt + 4095) / 4096).toNat true }

/-- The registration of a mapping. -/
def registration (fm : FileMap) : FileMapRegistration :=
  { virt := fm.virt, size := fm.size, offset := fm.offset, path := fm.path.bytes }

theorem restoreFileMaps_enc {fms : List FileMap}
    (hpath : ∀ fm ∈ fms, fm.path.bytes.length < 2 ^ 31) (fms₀ : List FileMap)
    (regs : List FileMapRegistration) (rest : List UInt8) :
    restoreFileMaps fms.length fms₀ regs (fms.flatMap fileMapBytes ++ rest) =
      (((fms.filter fun fm => Fits fm).map fresh).reverse ++ fms₀,
        regs ++ (fms.filter fun fm => Fits fm).map registration, rest) := by
  induction fms generalizing fms₀ regs with
  | nil => simp [restoreFileMaps]
  | cons fm fms ih =>
      have hlen := toNat_toInt_ofNat (hpath fm List.mem_cons_self)
      have ih' := ih fun fm' h => hpath fm' (List.mem_cons_of_mem _ h)
      rw [List.flatMap_cons, List.length_cons, restoreFileMaps, fileMapBytes]
      simp only [List.append_assoc, Codec.read_enc, hlen, List.take_left, List.drop_left, ih',
        CString.ofBytes_bytes]
      by_cases hfit : 0 < fm.path.bytes.length ∧ fm.path.bytes.length < pathbufSize
      · rw [if_pos hfit, List.filter_cons_of_pos (by rw [decide_eq_true_eq]; exact hfit)]
        simp [addFileMap, fresh, registration]
      · rw [if_neg hfit, List.filter_cons_of_neg (by rw [decide_eq_true_eq]; exact hfit)]

/-- The mappings a child has: those that fit, in the opposite order, with every page present. -/
def restoredFileMaps (fms : List FileMap) : List FileMap :=
  ((fms.filter fun fm => Fits fm).map fresh).reverse

/-- **What the child gets.**  Every fixed-size field comes back and the buffer is used up; the
descriptors are put in front of those the machine has, and so are the mappings. -/
theorem restore_serialize (p : Source) (m₀ : Machine) :
    restore m₀ (serialize p) =
      ({ machine :=
          { m₀ with
            beg := p.machine.beg, xmm := p.machine.xmm, ip := p.machine.ip
            flags := p.machine.flags, sigmask := p.machine.sigmask, ctid := p.machine.ctid
            tid := p.machine.tid, seg := p.machine.seg
            system :=
              { p.machine.system with
                fds := p.machine.system.fds.foldl addFd m₀.system.fds
                filemaps := restoredFileMaps p.machine.system.filemaps ++ m₀.system.filemaps } }
         hostPages := List.replicate p.hostPages.length none
         sabCount := p.hostPages.length
         registered := (p.machine.system.filemaps.filter fun fm => Fits fm).map registration },
        []) := by
  have hfms := restoreFileMaps_enc p.path_lt m₀.system.filemaps [] []
  rw [List.append_nil] at hfms
  simp only [restore, serialize, fdTableBytes, fileMapsBytes, List.append_assoc,
    restoreCpu_cpuBytes, restoreSystem_systemBytes, restoreHostPages_hostPageBytes p.hostPages_lt,
    Codec.read_enc, toNat_toInt_ofNat p.fds_lt, restoreFds_enc, toNat_toInt_ofNat p.filemaps_lt,
    hfms, restoredFileMaps, List.nil_append]

theorem fds_restore (p : Source) (m₀ : Machine) :
    (restore m₀ (serialize p)).1.machine.system.fds =
      p.machine.system.fds.foldl addFd m₀.system.fds := by
  rw [restore_serialize]

theorem filemaps_restore (p : Source) (m₀ : Machine) :
    (restore m₀ (serialize p)).1.machine.system.filemaps =
      restoredFileMaps p.machine.system.filemaps ++ m₀.system.filemaps := by
  rw [restore_serialize]

/-! ### The descriptors of the child -/

theorem foldl_addFd (fds₀ fds : List Fd) :
    fds.foldl addFd fds₀ = (fds.filter fun fd => 0 ≤ fd.fildes).reverse ++ fds₀ := by
  induction fds generalizing fds₀ with
  | nil => rfl
  | cons fd fds ih =>
      rw [List.foldl_cons, ih, addFd]
      by_cases h : 0 ≤ fd.fildes
      · rw [if_pos h, List.filter_cons_of_pos (by rw [decide_eq_true_eq]; exact h)]
        simp
      · rw [if_neg h, List.filter_cons_of_neg (by rw [decide_eq_true_eq]; exact h)]

/-- Every descriptor of the child is one of the parent's or one the machine had. -/
theorem mem_fildes_foldl_addFd {fds₀ fds : List Fd} {i : Int32} :
    i ∈ (fds.foldl addFd fds₀).map Fd.fildes ↔
      (0 ≤ i ∧ i ∈ fds.map Fd.fildes) ∨ i ∈ fds₀.map Fd.fildes := by
  rw [foldl_addFd, List.map_append, List.mem_append, List.map_reverse, List.mem_reverse]
  refine or_congr_left ?_
  simp only [List.mem_map, List.mem_filter, decide_eq_true_eq]
  constructor
  · rintro ⟨fd, ⟨hfd, h0⟩, rfl⟩
    exact ⟨h0, fd, hfd, rfl⟩
  · rintro ⟨h0, fd, hfd, rfl⟩
    exact ⟨fd, ⟨hfd, h0⟩, rfl⟩

/-- A number that both lists have is twice in the child's list. -/
theorem not_nodup_foldl_addFd {fds₀ fds : List Fd} {i : Int32} (h0 : 0 ≤ i)
    (hi : i ∈ fds.map Fd.fildes) (hi₀ : i ∈ fds₀.map Fd.fildes) :
    ¬ ((fds.foldl addFd fds₀).map Fd.fildes).Nodup := by
  intro hnd
  rw [foldl_addFd, List.map_append, List.nodup_append] at hnd
  refine hnd.2.2 i ?_ i hi₀ rfl
  rw [List.map_reverse, List.mem_reverse]
  obtain ⟨fd, hfd, rfl⟩ := List.mem_map.1 hi
  exact List.mem_map_of_mem (List.mem_filter.2 ⟨hfd, by rw [decide_eq_true_eq]; exact h0⟩)

/-- A faithful copy: the whole buffer is read, every register and every word of the system comes
back, the descriptors are the same map without a duplicate, and so is the answer to every question
about file-backed mappings. -/
structure RoundTrip (p : Source) (child : Restored × List UInt8) : Prop where
  consumed : child.2 = []
  beg : child.1.machine.beg = p.machine.beg
  ip : child.1.machine.ip = p.machine.ip
  flags : child.1.machine.flags = p.machine.flags
  xmm : child.1.machine.xmm = p.machine.xmm
  seg : child.1.machine.seg = p.machine.seg
  sigmask : child.1.machine.sigmask = p.machine.sigmask
  hands : child.1.machine.system.hands = p.machine.system.hands
  brk : child.1.machine.system.brk = p.machine.system.brk
  automap : child.1.machine.system.automap = p.machine.system.automap
  rlim : child.1.machine.system.rlim = p.machine.system.rlim
  fds_nodup : (child.1.machine.system.fds.map Fd.fildes).Nodup
  fds : ∀ fildes, getFd child.1.machine.system.fds fildes = getFd p.machine.system.fds fildes
  filemaps : ∀ virt,
    (getFileMap child.1.machine.system.filemaps virt).map registration =
      (getFileMap p.machine.system.filemaps virt).map registration

/-- **The child is never a faithful copy.**  `restore_fork` puts the terminal into the descriptor list
before the parent's descriptors are added, so a number below 3 that the parent has is in the list
twice, and one that it has closed is back. -/
theorem not_roundTrip (p : Source) (base : Machine) (hostFlags : Int32 → Option Int32) :
    ¬ RoundTrip p (restore (newMachine base hostFlags) (serialize p)) := by
  intro h
  have hnd := h.fds_nodup
  have hfd := h.fds 0
  rw [fds_restore] at hnd hfd
  have hstd : (0 : Int32) ∈ (addStdFds hostFlags).map Fd.fildes :=
    fildes_addStdFds hostFlags (by simp)
  have hchild : (getFd (p.machine.system.fds.foldl addFd (addStdFds hostFlags)) 0).isSome :=
    getFd_isSome.2 (mem_fildes_foldl_addFd.2 (Or.inr hstd))
  have hparent : (0 : Int32) ∈ p.machine.system.fds.map Fd.fildes := by
    rw [← getFd_isSome, ← hfd]
    exact hchild
  exact not_nodup_foldl_addFd (by decide) hparent hstd hnd

/-- A process that has just been started: the terminal is in its descriptor list and no file is
mapped. -/
def bootSource : Source where
  machine := newMachine default fun _ => none
  hostPages := []
  pagePool := default
  hostPages_lt := by decide
  fds_lt := by decide
  filemaps_lt := by decide
  path_lt := by simp [newMachine]

/-- Such a process has a child with two entries for each number below 3. -/
theorem bootSource_duplicates :
    (restore (newMachine default fun _ => none) (serialize bootSource)).1.machine.system.fds.map
        Fd.fildes = [0, 1, 2, 2, 1, 0] ∧
      ¬ RoundTrip bootSource (restore (newMachine default fun _ => none) (serialize bootSource)) := by
  have hfds : (restore (newMachine default fun _ => none)
      (serialize bootSource)).1.machine.system.fds.map Fd.fildes = [0, 1, 2, 2, 1, 0] := by
    rw [fds_restore]
    decide
  refine ⟨hfds, fun h => ?_⟩
  have hnd := h.fds_nodup
  rw [hfds] at hnd
  exact absurd hnd (by decide)

/-! ### The mappings of the child -/

/-- A search meets the same element from both ends of a list when no two of them match. -/
theorem find?_reverse {α : Type} {p : α → Bool} {l : List α}
    (h : l.Pairwise fun a b => ¬ (p a = true ∧ p b = true)) : l.reverse.find? p = l.find? p := by
  induction l with
  | nil => rfl
  | cons a l ih =>
      rw [List.pairwise_cons] at h
      rw [List.reverse_cons, List.find?_append, ih h.2]
      by_cases ha : p a = true
      · have hnone : l.find? p = none := by
          rw [List.find?_eq_none]
          exact fun b hb hpb => h.1 b hb ⟨ha, hpb⟩
        simp [hnone, ha]
      · simp [ha]

/-- **Mappings that do not overlap are found again**, as long as their paths fit the buffer and none
of their pages has been unmarked. -/
theorem getFileMap_restored (p : Source) (base : Machine) (hostFlags : Int32 → Option Int32)
    (hfit : ∀ fm ∈ p.machine.system.filemaps, Fits fm)
    (hpresent : ∀ fm ∈ p.machine.system.filemaps, fresh fm = fm)
    (hdisj : p.machine.system.filemaps.Pairwise fun a b =>
      ∀ virt, ¬ (a.covers virt = true ∧ b.covers virt = true)) (virt : Int64) :
    getFileMap (restore (newMachine base hostFlags) (serialize p)).1.machine.system.filemaps virt =
      getFileMap p.machine.system.filemaps virt := by
  have hkeep : (p.machine.system.filemaps.filter fun fm => Fits fm) = p.machine.system.filemaps :=
    List.filter_eq_self.2 fun fm hfm => by rw [decide_eq_true_eq]; exact hfit fm hfm
  have hmap : p.machine.system.filemaps.map fresh = p.machine.system.filemaps :=
    (List.map_congr_left hpresent).trans (List.map_id _)
  rw [filemaps_restore, restoredFileMaps, hkeep, hmap]
  exact (congrArg (fun l => List.find? _ l) (List.append_nil _)).trans
    (find?_reverse (hdisj.imp fun h => h virt))

end ForkState
