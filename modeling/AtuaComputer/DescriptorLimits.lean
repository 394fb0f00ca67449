/-
**Descriptor limits.**

Blink keeps `RLIMIT_NOFILE` by comparing the number that the kernel hands out with the limit.  `F_DUPFD` gets
the least number that is free.  An open takes its number from the filesystem's counter, which all processes
share, and `dup` from a counter of the process; neither goes back.  So what a process is refused depends on
what has been opened so far and not on what is open.

Main definitions:

* `DescriptorLimits.sysOpenat`, `sysDup1`, `sysDupf` — Blink's calls over the kernel's;
* `DescriptorLimits.Eligible` — the process has room, and there is something to open or to duplicate;
* `DescriptorLimits.Granted` — an eligible request is served, and a refused open leaves nothing behind;
* `DescriptorLimits.Free` — the condition on the counters.

Main results:

* `DescriptorLimits.granted_next_iff` — the condition is exact for one step;
* `DescriptorLimits.granted_iff_free` — every request of a run is granted **if and only if** all its steps
  meet the condition.
-/

import AtuaComputer.FdAlloc
import AtuaComputer.OpenFiles

set_option relaxedAutoImplicit false
set_option autoImplicit false

namespace DescriptorLimits

open Kernel VirtualFs Bridge Runs
open FdAlloc (returned TakesNumber openPath_takes sysDup_takes sysFcntl_takes)

/-! ### Blink's calls -/

/-- A number, or the error number. -/
abbrev Result := Except ℤ ℤ

def enoent : ℤ := 2
def ebadf : ℤ := 9
def emfile : ℤ := 24

/-- `GetFileDescriptorLimit`, from the current `RLIMIT_NOFILE`. -/
def getFileDescriptorLimit (cur : UInt64) : ℕ := min cur.toNat (2 ^ 31 - 1)

/-- What `SysOpenat` makes of the number from the kernel: every error is `ENOENT`. -/
def openatResult (lim : ℕ) (fildes : ℤ) : Result :=
  if fildes < 0 then .error enoent
  else if lim ≤ fildes then .error emfile
  else .ok fildes

/-- `SysOpenat`.  A number past the limit is closed again. -/
def sysOpenat (lim : ℕ) (k : Kernel.State) (pid : ℤ) (path : Path) (sysflags mode : Int32) (fate : Fate) :
    Kernel.State × Result :=
  if lim = 0 then (k, .error emfile)
  else
    let opened := handleSyscall k pid (.fsOpen path sysflags mode) fate
    let fildes := returned opened
    (if lim ≤ fildes then (handleSyscall opened.kernel pid (.close (Int32.ofInt opened.result)) fate).kernel
      else opened.kernel,
      openatResult lim fildes)

/-- What the C library makes of a result of the kernel. -/
def syscallRet (r : ℤ) : Result := if -4096 < r ∧ r < 0 then .error (-r) else .ok r

/-- A duplicate past the limit is refused.  `VfsClose` does nothing, so the kernel keeps it. -/
def checkLimit (lim : ℕ) : Result → Result
  | .error e => .error e
  | .ok newfildes => if lim ≤ newfildes then .error emfile else .ok newfildes

/-- `SysDup1` -/
def sysDup1 (lim : ℕ) (k : Kernel.State) (pid : ℤ) (fildes : Int32) (fate : Fate) : Kernel.State × Result :=
  if fildes.toInt < 0 then (k, .error ebadf)
  else if lim = 0 then (k, .error emfile)
  else
    let dup := handleSyscall k pid (.dup fildes) fate
    (dup.kernel, checkLimit lim (syscallRet (returned dup)))

/-- `SysDupf`, with `cmd` one of `F_DUPFD` and `F_DUPFD_CLOEXEC`. -/
def sysDupf (lim : ℕ) (k : Kernel.State) (pid : ℤ) (fildes minfildes : Int32) (cloexec : Bool)
    (fate : Fate) : Kernel.State × Result :=
  if lim ≤ minfildes.toInt then (k, .error emfile)
  else
    let dup := handleSyscall k pid (.fcntl fildes (if cloexec then 1030 else 0) minfildes) fate
    (dup.kernel, checkLimit lim (syscallRet (returned dup)))

/-- The requests that need a new number. -/
inductive Request where
  | openat (path : Path) (sysflags mode : Int32)
  | dup (fildes : Int32)
  | dupf (fildes minfildes : Int32) (cloexec : Bool)

def serve (lim : ℕ) (k : Kernel.State) (pid : ℤ) (fate : Fate) : Request → Kernel.State × Result
  | .openat path sysflags mode => sysOpenat lim k pid path sysflags mode fate
  | .dup fildes => sysDup1 lim k pid fildes fate
  | .dupf fildes minfildes cloexec => sysDupf lim k pid fildes minfildes cloexec fate

/-- A step: the kernel serves an event, or Blink serves a request of the guest under the limit of its
process. -/
inductive Act where
  | kernel (ev : Event)
  | guest (pid : ℤ) (cur : UInt64) (req : Request) (fate : Fate)

def next (k : Kernel.State) : Act → Kernel.State
  | .kernel ev => after k ev
  | .guest pid cur req fate => (serve (getFileDescriptorLimit cur) k pid fate req).1

def Step (k : Kernel.State) (act : Act) (k' : Kernel.State) : Prop := k' = next k act

/-! ### The property -/

/-- The process has fewer descriptors than the limit.  The path can be opened; or the descriptor is there
and, for `F_DUPFD`, a number that may be used. -/
def Eligible (lim : ℕ) (k : Kernel.State) (pid : ℤ) (req : Request) : Prop :=
  ∃ p, k.processTable.get? pid = some p ∧ p.fdTable.size < lim ∧
    match req with
    | .openat path sysflags mode => 0 ≤ (openFile k.vfs (readCString p path) sysflags mode).2
    | .dup fildes => 0 ≤ fildes.toInt ∧ p.fdTable.has fildes.toInt = true
    | .dupf fildes minfildes _ => p.fdTable.has fildes.toInt = true ∧ 0 ≤ minfildes.toInt ∧
        ∃ n, minfildes.toInt ≤ n ∧ n < lim ∧ p.fdTable.has n = false

/-- Every descriptor and every description was there before. -/
structure NothingLeft (k k' : Kernel.State) : Prop where
  descriptors : ∀ q i kind, kindAt k' q i = some kind → kindAt k q i = some kind
  descriptions : ∀ h, k'.vfs.openFiles.has h = true → k.vfs.openFiles.has h = true

/-- A request under a limit that leads to `k'`, with its result. -/
structure Serves (lim : ℕ) (k : Kernel.State) (pid : ℤ) (req : Request) (k' : Kernel.State) (r : Result) :
    Prop where
  served : Eligible lim k pid req → ∃ fd, 0 ≤ fd ∧ r = .ok fd
  refused : ∀ path sysflags mode e, req = .openat path sysflags mode → r = .error e → NothingLeft k k'

/-- **What a step has to do.** -/
def Granted (k : Kernel.State) : Act → Kernel.State → Prop
  | .kernel _, _ => True
  | .guest pid cur req fate, k' =>
    Serves (getFileDescriptorLimit cur) k pid req k' (serve (getFileDescriptorLimit cur) k pid fate req).2

/-! ### The condition -/

/-- The number reaches the caller, and below the limit. -/
def Fits (lim : ℕ) (n : ℤ) : Prop := 0 ≤ (Int32.ofInt n).toInt ∧ (Int32.ofInt n).toInt < lim

/-- The counter fits wherever it is used.  An open of a process without room may find it past the limit. -/
def Free (k : Kernel.State) : Act → Prop
  | .kernel _ => True
  | .guest pid cur req _ =>
    let lim := getFileDescriptorLimit cur
    ∀ p, k.processTable.get? pid = some p →
      match req with
      | .openat path sysflags mode =>
        lim ≠ 0 → 0 ≤ (openFile k.vfs (readCString p path) sysflags mode).2 →
          Fits lim k.vfs.nextFd ∨ (k.vfs.nextFd < 2 ^ 31 ∧ lim ≤ p.fdTable.size)
      | .dup fildes =>
        p.fdTable.size < lim → 0 ≤ fildes.toInt → p.fdTable.has fildes.toInt = true → Fits lim p.nextFd
      | .dupf _ _ _ => True

/-! ### What every step keeps -/

/-- Every description behind a descriptor has a number that the counter has passed. -/
def Below (k : Kernel.State) : Prop := ∀ slot h, handleAt k slot = some h → h < k.vfs.nextFd

structure Sound (k : Kernel.State) : Prop where
  wf : Wf k
  below : Below k

theorem sound_of_starts {k : Kernel.State} (hk : Starts k) : Sound k where
  wf := wf_of_starts hk
  below := by
    intro slot h hh
    rw [handleAt, refs, kindAt_of_noProc (hk.noProc slot.1)] at hh
    cases hh

theorem below_after {k : Kernel.State} (hs : Sound k) (ev : Event) : Below (after k ev) := by
  have htook := took_after hs.wf.nextFd_nonneg ev
  by_cases hopen : ∃ pid vfsFd isDir, (effectOf k ev).touch = .open pid vfsFd isDir
  · obtain ⟨pid, vfsFd, isDir, ht⟩ := hopen
    obtain ⟨hfd, hnext, -⟩ := htook.opens ht
    intro slot h hh
    by_cases hslot : (effectOf k ev).touch.slots k slot
    · rw [ht, Touch.slots] at hslot
      rw [hslot, OpenFiles.handleAt_opened hs.wf ev ht, Option.some_inj] at hh
      omega
    · have hbefore : handleAt k slot = some h := by
        rw [← hh]
        exact (refs_outside OpenFiles.special_handle htook slot hslot).symm
      have hlt := hs.below slot h hbefore
      omega
  · have hopen : ∀ pid vfsFd isDir, (effectOf k ev).touch ≠ .open pid vfsFd isDir :=
      fun pid vfsFd isDir ht => hopen ⟨pid, vfsFd, isDir, ht⟩
    have hnext := (htook.closesHandle hopen).1
    intro slot h hh
    rw [hnext]
    by_cases hslot : (effectOf k ev).touch.slots k slot
    · obtain ⟨s', hs'⟩ := (OpenFiles.handle_copied hs.wf ev hopen slot h hslot hh).held
      exact hs.below s' h hs'
    · refine hs.below slot h ?_
      rw [← hh]
      exact (refs_outside OpenFiles.special_handle htook slot hslot).symm

theorem Sound.after {k : Kernel.State} (hs : Sound k) (ev : Event) : Sound (after k ev) :=
  ⟨wf_after hs.wf ev, below_after hs ev⟩

/-- Blink's calls are events of the kernel, one after the other. -/
theorem Sound.serve {k : Kernel.State} (hs : Sound k) (lim : ℕ) (pid : ℤ) (fate : Fate) (req : Request) :
    Sound (serve lim k pid fate req).1 := by
  cases req with
  | openat path sysflags mode =>
      have hopened := hs.after (.call pid (.fsOpen path sysflags mode) fate)
      simp only [DescriptorLimits.serve, sysOpenat]
      split_ifs
      · exact hs
      · exact hopened.after (.call pid (.close _) fate)
      · exact hopened
  | dup fildes =>
      simp only [DescriptorLimits.serve, sysDup1]
      split_ifs
      · exact hs
      · exact hs
      · exact hs.after (.call pid (.dup fildes) fate)
  | dupf fildes minfildes cloexec =>
      simp only [DescriptorLimits.serve, sysDupf]
      split_ifs
      · exact hs
      · exact hs.after (.call pid (.fcntl fildes 1030 minfildes) fate)
      · exact hs.after (.call pid (.fcntl fildes 0 minfildes) fate)

theorem Sound.next {k : Kernel.State} (hs : Sound k) (act : Act) : Sound (next k act) := by
  cases act with
  | kernel ev => exact hs.after ev
  | guest pid cur req fate => exact hs.serve (getFileDescriptorLimit cur) pid fate req

/-! ### What an open leaves -/

theorem NothingLeft.refl (k : Kernel.State) : NothingLeft k k := ⟨fun _ _ _ h => h, fun _ h => h⟩

theorem nothingLeft_of_idle {k : Kernel.State} (hw : Wf k) {ev : Event} (he : effectOf k ev = {}) :
    NothingLeft k (after k ev) := by
  have htook := took_after hw.nextFd_nonneg ev
  rw [he] at htook
  constructor
  · intro q i kind hkind
    rwa [htook.kindAt] at hkind
  · intro h hh
    exact (((htook.closesHandle (fun _ _ _ => Touch.noConfusion)).has h).1 hh).1

section Open

variable {k : Kernel.State} {pid : ℤ} {p : Proc} {path : Path} {sysflags mode : Int32}

/-- An open that succeeds takes the number of the counter. -/
theorem touch_fsOpen (hp : k.processTable.get? pid = some p)
    (hopen : 0 ≤ (openFile k.vfs (readCString p path) sysflags mode).2) (fate : Fate) :
    ∃ isDir, (effectOf k (.call pid (.fsOpen path sysflags mode) fate)).touch =
      .open pid k.vfs.nextFd isDir := by
  have hnumber : (openFile k.vfs (readCString p path) sysflags mode).2 = k.vfs.nextFd := by
    rcases openFile_cases k.vfs (readCString p path) sysflags mode with ⟨hneg, -⟩ | ⟨file, hres, -⟩
    · omega
    · exact hres
  have hnonneg : 0 ≤ k.vfs.nextFd := hnumber ▸ hopen
  rw [effectOf_call hp]
  simp only [callEffect, openEffect, hnumber, if_pos hnonneg]
  exact ⟨_, rfl⟩

theorem idle_fsOpen (hp : k.processTable.get? pid = some p)
    (hopen : ¬ 0 ≤ (openFile k.vfs (readCString p path) sysflags mode).2) (fate : Fate) :
    effectOf k (.call pid (.fsOpen path sysflags mode) fate) = {} := by
  rw [effectOf_call hp]
  simp only [callEffect, openEffect, if_neg hopen]

variable (hs : Sound k) {ev : Event} {isDir : Bool}
  (ht : (effectOf k ev).touch = .open pid k.vfs.nextFd isDir)

include hs ht

theorem kindAt_opened (q i : ℤ) :
    kindAt (after k ev) q i =
      if q = pid ∧ i = k.vfs.nextFd then some (openKind k.vfs.nextFd isDir) else kindAt k q i := by
  have h := (took_after hs.wf.nextFd_nonneg ev).kindAt q i
  rwa [ht] at h

theorem has_opened (h : ℤ) :
    (after k ev).vfs.openFiles.has h = true ↔ h = k.vfs.nextFd ∨ k.vfs.openFiles.has h = true := by
  obtain ⟨-, -, file, ho⟩ := (took_after hs.wf.nextFd_nonneg ev).opens ht
  rw [ho, JsMap.has_set]

omit ht in
/-- A new description is something left behind. -/
theorem left_of_has {k' : Kernel.State} (hhas : k'.vfs.openFiles.has k.vfs.nextFd = true) :
    ¬ NothingLeft k k' := by
  intro h
  exact absurd (hs.wf.numbered.lt _ (h.descriptions _ hhas)) (Int.lt_irrefl _)

theorem left_opened : ¬ NothingLeft k (after k ev) :=
  left_of_has hs ((has_opened hs ht _).2 (Or.inl rfl))

/-- The effect of a close after the open. -/
theorem effectOf_close (a : Int32) (fate : Fate) :
    effectOf (after k ev) (.call pid (.close a) fate) = closeEffect (after k ev) pid a := by
  have hkind := kindAt_opened hs ht pid k.vfs.nextFd
  rw [if_pos ⟨rfl, rfl⟩] at hkind
  cases hp : (after k ev).processTable.get? pid with
  | none =>
      rw [kindAt_of_noProc hp] at hkind
      cases hkind
  | some p => rw [effectOf_call hp, callEffect]

/-- What is open after the two. -/
theorem has_closed (a : Int32) (fate : Fate) (h : ℤ) :
    (after (after k ev) (.call pid (.close a) fate)).vfs.openFiles.has h = true ↔
      (h = k.vfs.nextFd ∨ k.vfs.openFiles.has h = true) ∧ handleAt (after k ev) (pid, a.toInt) ≠ some h := by
  have htook := took_after (hs.after ev).wf.nextFd_nonneg (.call pid (.close a) fate)
  rw [effectOf_close hs ht] at htook
  rw [(htook.closesHandle fun _ _ _ => Touch.noConfusion).has, has_opened hs ht, closeEffect]

/-- Closing the number of the new descriptor takes both away again. -/
theorem nothingLeft_closed {a : Int32} (ha : a.toInt = k.vfs.nextFd) (fate : Fate) :
    NothingLeft k (after (after k ev) (.call pid (.close a) fate)) := by
  have hhandle := OpenFiles.handleAt_opened hs.wf ev ht
  constructor
  · intro q i kind hkind
    have htook := took_after (hs.after ev).wf.nextFd_nonneg (.call pid (.close a) fate)
    rw [effectOf_close hs ht] at htook
    rw [htook.kindAt, closeEffect, Touch.lookup, ha] at hkind
    split_ifs at hkind with hslot
    rwa [kindAt_opened hs ht, if_neg hslot] at hkind
  · intro h hh
    rw [has_closed hs ht, ha, hhandle] at hh
    rcases hh.1 with rfl | hbefore
    · exact absurd rfl hh.2
    · exact hbefore

/-- Closing any other number leaves the new description open. -/
theorem left_closed {a : Int32} (ha : a.toInt ≠ k.vfs.nextFd) (fate : Fate) :
    ¬ NothingLeft k (after (after k ev) (.call pid (.close a) fate)) := by
  refine left_of_has hs ((has_closed hs ht a fate _).2 ⟨Or.inl rfl, fun hhandle => ?_⟩)
  have hkind : kindAt (after k ev) pid a.toInt = kindAt k pid a.toInt := by
    rw [kindAt_opened hs ht, if_neg (fun hslot => ha hslot.2)]
  have hbefore : handleAt k (pid, a.toInt) = some k.vfs.nextFd := by
    rw [handleAt, refs, ← hkind]
    exact hhandle
  exact absurd (hs.below _ _ hbefore) (Int.lt_irrefl _)

end Open

/-! ### The condition is exact -/

section Exact

variable {k : Kernel.State} {lim : ℕ} {pid : ℤ} {p : Proc}

theorem openatResult_ok_iff (w : ℤ) :
    (∃ fd, 0 ≤ fd ∧ openatResult lim w = .ok fd) ↔ 0 ≤ w ∧ w < lim := by
  unfold openatResult
  constructor
  · rintro ⟨fd, -, hok⟩
    split_ifs at hok with hneg hpast
    exact ⟨by omega, by omega⟩
  · rintro ⟨hpos, hlt⟩
    exact ⟨w, hpos, by rw [if_neg (by omega), if_neg (by omega)]⟩

theorem checkLimit_ok_iff (w : ℤ) :
    (∃ fd, 0 ≤ fd ∧ checkLimit lim (syscallRet w) = .ok fd) ↔ 0 ≤ w ∧ w < lim := by
  unfold syscallRet
  constructor
  · rintro ⟨fd, hfd, hok⟩
    split_ifs at hok with herr
    · cases hok
    · rw [checkLimit] at hok
      split_ifs at hok with hpast
      cases hok
      exact ⟨hfd, by omega⟩
  · rintro ⟨hpos, hlt⟩
    refine ⟨w, hpos, ?_⟩
    rw [if_neg (by omega), checkLimit, if_neg (by omega)]

theorem handleSyscall_fsOpen (hp : k.processTable.get? pid = some p) (path : Path) (sysflags mode : Int32)
    (fate : Fate) :
    handleSyscall k pid (.fsOpen path sysflags mode) fate = openPath k pid p path sysflags mode := by
  rw [handleSyscall, hp]

theorem handleSyscall_dup (hp : k.processTable.get? pid = some p) (a : Int32) (fate : Fate) :
    handleSyscall k pid (.dup a) fate = sysDup k pid p a := by
  rw [handleSyscall, hp]

theorem handleSyscall_fcntl (hp : k.processTable.get? pid = some p) (a b c : Int32) (fate : Fate) :
    handleSyscall k pid (.fcntl a b c) fate = sysFcntl k pid p a b c := by
  rw [handleSyscall, hp]

theorem returned_noProc (hp : k.processTable.get? pid = none) (call : Call) (fate : Fate) :
    returned (handleSyscall k pid call fate) < 0 := by
  rw [handleSyscall, hp]
  exact (by decide : (Int32.ofInt (-1)).toInt < 0)

theorem eligible_iff (hp : k.processTable.get? pid = some p) (req : Request) :
    Eligible lim k pid req ↔ p.fdTable.size < lim ∧
      match req with
      | .openat path sysflags mode => 0 ≤ (openFile k.vfs (readCString p path) sysflags mode).2
      | .dup fildes => 0 ≤ fildes.toInt ∧ p.fdTable.has fildes.toInt = true
      | .dupf fildes minfildes _ => p.fdTable.has fildes.toInt = true ∧ 0 ≤ minfildes.toInt ∧
          ∃ n, minfildes.toInt ≤ n ∧ n < lim ∧ p.fdTable.has n = false := by
  unfold Eligible
  rw [hp]
  simp only [Option.some_inj, exists_eq_left']

theorem not_eligible (hp : k.processTable.get? pid = none) (req : Request) : ¬ Eligible lim k pid req := by
  rintro ⟨p, hp', -⟩
  rw [hp] at hp'
  cases hp'

/-! #### `SysOpenat` -/

section Openat

variable (hs : Sound k) (path : Path) (sysflags mode : Int32) (fate : Fate)

include hs

/-- A failed open: nothing has changed. -/
theorem serves_openat_idle (hne : lim ≠ 0)
    (hidle : effectOf k (.call pid (.fsOpen path sysflags mode) fate) = {})
    (hret : returned (handleSyscall k pid (.fsOpen path sysflags mode) fate) < 0)
    (hnot : ¬ Eligible lim k pid (.openat path sysflags mode)) :
    let s := sysOpenat lim k pid path sysflags mode fate
    Serves lim k pid (.openat path sysflags mode) s.1 s.2 := by
  have hnothing := nothingLeft_of_idle hs.wf hidle
  dsimp only
  rw [sysOpenat, if_neg hne]
  dsimp only
  rw [if_neg (by omega)]
  exact ⟨fun h => absurd h hnot, fun _ _ _ _ _ _ => hnothing⟩

/-- An open that succeeds in the kernel. -/
theorem serves_openat_opened (hne : lim ≠ 0) (hp : k.processTable.get? pid = some p)
    (hopen : 0 ≤ (openFile k.vfs (readCString p path) sysflags mode).2) :
    let s := sysOpenat lim k pid path sysflags mode fate
    Serves lim k pid (.openat path sysflags mode) s.1 s.2 ↔
      Fits lim k.vfs.nextFd ∨ (k.vfs.nextFd < 2 ^ 31 ∧ lim ≤ p.fdTable.size) := by
  have htakes := @openPath_takes k pid p hs.wf.nextFd_nonneg path sysflags mode
  rw [if_pos hopen, ← handleSyscall_fsOpen hp path sysflags mode fate] at htakes
  have hresult := htakes.1
  have hret : returned (handleSyscall k pid (.fsOpen path sysflags mode) fate) =
      (Int32.ofInt k.vfs.nextFd).toInt := by
    rw [returned, hresult]
  obtain ⟨isDir, ht⟩ := touch_fsOpen hp hopen fate
  have hpos := hs.wf.nextFd_nonneg
  have hlt := (Int32.ofInt k.vfs.nextFd).toInt_lt
  have helig : Eligible lim k pid (.openat path sysflags mode) ↔ p.fdTable.size < lim := by
    rw [eligible_iff hp]
    exact and_iff_left hopen
  have hok := @openatResult_ok_iff lim (Int32.ofInt k.vfs.nextFd).toInt
  dsimp only
  rw [sysOpenat, if_neg hne]
  dsimp only
  rw [hret, hresult]
  unfold Fits
  by_cases hfits : 0 ≤ (Int32.ofInt k.vfs.nextFd).toInt ∧ (Int32.ofInt k.vfs.nextFd).toInt < lim
  · -- the number is handed to the guest
    rw [if_neg (by omega)]
    obtain ⟨fd, hfd, hserved⟩ := hok.2 hfits
    refine iff_of_true ⟨fun _ => ⟨fd, hfd, hserved⟩, fun _ _ _ e _ he => ?_⟩ (Or.inl hfits)
    rw [hserved] at he
    cases he
  · have hrefused : ∃ e, openatResult lim (Int32.ofInt k.vfs.nextFd).toInt = .error e := by
      cases hr : openatResult lim (Int32.ofInt k.vfs.nextFd).toInt with
      | error e => exact ⟨e, rfl⟩
      | ok fd =>
          rw [openatResult] at hr
          split_ifs at hr
          exact absurd ⟨by omega, by omega⟩ hfits
    obtain ⟨e, he⟩ := hrefused
    by_cases hsmall : k.vfs.nextFd < 2 ^ 31
    · -- the number is past the limit, and closed
      have hword := Int32.toInt_ofInt_of_le (Int.le_trans (by decide) hpos) hsmall
      have hnothing := nothingLeft_closed hs ht hword fate
      rw [if_pos (by omega), or_iff_right hfits, and_iff_right hsmall]
      constructor
      · intro h
        by_contra hroom
        exact hfits (hok.1 (h.served (helig.2 (by omega))))
      · intro hfull
        refine ⟨fun h => ?_, fun _ _ _ _ _ _ => hnothing⟩
        have hroom := helig.1 h
        omega
    · -- what is closed, if anything, is another number
      have hother : (Int32.ofInt k.vfs.nextFd).toInt ≠ k.vfs.nextFd := by omega
      refine iff_of_false (fun h => ?_) (by tauto)
      have hnothing := h.refused path sysflags mode e rfl he
      split_ifs at hnothing
      · exact left_closed hs ht hother fate hnothing
      · exact left_opened hs ht hnothing

theorem serves_openat_iff :
    let s := sysOpenat lim k pid path sysflags mode fate
    Serves lim k pid (.openat path sysflags mode) s.1 s.2 ↔
      ∀ p, k.processTable.get? pid = some p → lim ≠ 0 →
        0 ≤ (openFile k.vfs (readCString p path) sysflags mode).2 →
        Fits lim k.vfs.nextFd ∨ (k.vfs.nextFd < 2 ^ 31 ∧ lim ≤ p.fdTable.size) := by
  by_cases hne : lim ≠ 0
  swap
  · -- the limit allows nothing
    rw [ne_eq, not_not] at hne
    rw [sysOpenat, if_pos hne]
    refine iff_of_true ⟨?_, fun _ _ _ _ _ _ => NothingLeft.refl k⟩ fun _ _ hne' => absurd hne hne'
    rintro ⟨p, -, hsize, -⟩
    omega
  cases hp : k.processTable.get? pid with
  | none =>
      exact iff_of_true
        (serves_openat_idle hs path sysflags mode fate hne (effectOf_noProc hp _ fate)
          (returned_noProc hp _ fate) (not_eligible hp _))
        nofun
  | some p =>
      simp only [Option.some_inj, forall_eq', hne, not_false_eq_true, true_imp_iff, ne_eq]
      by_cases hopen : 0 ≤ (openFile k.vfs (readCString p path) sysflags mode).2
      · exact (serves_openat_opened hs path sysflags mode fate hne hp hopen).trans
          ⟨fun h _ => h, fun h => h hopen⟩
      · have htakes := @openPath_takes k pid p hs.wf.nextFd_nonneg path sysflags mode
        rw [if_neg hopen, ← handleSyscall_fsOpen hp path sysflags mode fate] at htakes
        refine iff_of_true ?_ fun h => absurd h hopen
        refine serves_openat_idle hs path sysflags mode fate hne (idle_fsOpen hp hopen fate) htakes ?_
        rw [eligible_iff hp]
        exact fun h => hopen h.2

end Openat

/-! #### `SysDup1` and `SysDupf` -/

/-- A request that opens nothing only has to be served. -/
theorem serves_iff {req : Request} (hreq : ∀ path sysflags mode, req ≠ .openat path sysflags mode)
    (k' : Kernel.State) (r : Result) :
    Serves lim k pid req k' r ↔ (Eligible lim k pid req → ∃ fd, 0 ≤ fd ∧ r = .ok fd) :=
  ⟨Serves.served, fun h => ⟨h, fun path sysflags mode _ heq _ => absurd heq (hreq path sysflags mode)⟩⟩

theorem serves_dup_iff (fildes : Int32) (fate : Fate) :
    let s := sysDup1 lim k pid fildes fate
    Serves lim k pid (.dup fildes) s.1 s.2 ↔
      ∀ p, k.processTable.get? pid = some p → p.fdTable.size < lim → 0 ≤ fildes.toInt →
        p.fdTable.has fildes.toInt = true → Fits lim p.nextFd := by
  dsimp only
  rw [serves_iff (by nofun)]
  cases hp : k.processTable.get? pid with
  | none => exact iff_of_true (fun h => absurd h (not_eligible hp _)) nofun
  | some p =>
      rw [eligible_iff hp]
      simp only [Option.some_inj, forall_eq', and_imp]
      refine imp_congr_right fun hsize => imp_congr_right fun hfildes => imp_congr_right fun hhas => ?_
      have htakes := @sysDup_takes k pid p fildes
      rw [if_pos hhas, ← handleSyscall_dup hp fildes fate] at htakes
      rw [sysDup1, if_neg (by omega), if_neg (by omega)]
      dsimp only
      rw [checkLimit_ok_iff, returned, htakes.1, Fits]

/-- `F_DUPFD` always finds a free number below the limit. -/
theorem serves_dupf (hlim : lim < 2 ^ 31) (fildes minfildes : Int32) (cloexec : Bool) (fate : Fate) :
    let s := sysDupf lim k pid fildes minfildes cloexec fate
    Serves lim k pid (.dupf fildes minfildes cloexec) s.1 s.2 := by
  dsimp only
  rw [serves_iff (by nofun)]
  intro h
  obtain ⟨p, hp, -, hhas, hmin, n, hle, hn, hfree⟩ := h
  have hcmd : ((if cloexec then 1030 else 0 : Int32)) = 0 ∨ ((if cloexec then 1030 else 0 : Int32)) = 1030 := by
    cases cloexec <;> simp
  have htakes := @sysFcntl_takes k pid p fildes _ minfildes hcmd
  rw [if_pos hhas, ← handleSyscall_fcntl hp _ _ _ fate] at htakes
  have hfrom : (minfildes.toUInt32.toNat : ℤ) = minfildes.toInt := by
    have hbits : minfildes.toUInt32.toNat = minfildes.toBitVec.toNat := rfl
    have hsign : minfildes.toInt = minfildes.toBitVec.toInt := rfl
    rw [hsign, BitVec.toInt_eq_toNat_cond] at hmin ⊢
    rw [hbits]
    split_ifs at hmin ⊢ <;> omega
  have hfirst := JsMap.le_firstFree p.fdTable minfildes.toUInt32.toNat
  have hlast := JsMap.firstFree_le (i := minfildes.toUInt32.toNat) (by omega) hfree
  rw [sysDupf, if_neg (by omega)]
  dsimp only
  rw [checkLimit_ok_iff, returned, htakes.1, Int32.toInt_ofInt_of_le (by omega) (by omega)]
  omega

end Exact

theorem getFileDescriptorLimit_lt (cur : UInt64) : getFileDescriptorLimit cur < 2 ^ 31 := by
  unfold getFileDescriptorLimit
  omega

/-- **The condition is exact for one step.** -/
theorem granted_next_iff {k : Kernel.State} (hs : Sound k) (act : Act) :
    Granted k act (next k act) ↔ Free k act := by
  cases act with
  | kernel ev => exact Iff.rfl
  | guest pid cur req fate =>
      cases req with
      | openat path sysflags mode => exact serves_openat_iff hs path sysflags mode fate
      | dup fildes => exact serves_dup_iff fildes fate
      | dupf fildes minfildes cloexec =>
          exact iff_of_true (serves_dupf (getFileDescriptorLimit_lt cur) fildes minfildes cloexec fate)
            fun _ _ => trivial

/-! ### Runs -/

/-- **Every request of a run is granted exactly when all its steps meet the condition.** -/
theorem granted_iff_free {k : Kernel.State} {tr : List (Act × Kernel.State)} (hk : Starts k)
    (hrun : IsRun Step k tr) : EachStep Granted k tr ↔ Meets Free k tr := by
  refine eachStep_iff_meets ?_ ?_ (sound_of_starts hk) hrun
  · rintro s act s' hs rfl
    exact hs.next act
  · rintro s act s' hs rfl
    exact granted_next_iff hs act

/-- A process has opened and closed a file. -/
def openedOnce : List Act :=
  [.kernel (.registerWorker 1), .kernel (.registerMemory 1),
    .guest 1 5 (.openat "/dev/null".toList 0 0) .answered, .kernel (.call 1 (.close 4) .answered)]

/-- It opens the file again. -/
def openedTwice : List Act := openedOnce ++ [.guest 1 5 (.openat "/dev/null".toList 0 0) .answered]

/-- **Below its limit of five, a process with three descriptors is refused.** -/
theorem not_granted_openedTwice : ¬ EachStep Granted booted (trace next booted openedTwice) := by
  intro h
  have hserves : Serves 5 (openedOnce.foldl next booted) 1 (.openat "/dev/null".toList 0 0) _ _ :=
    h.2.2.2.2.1
  have helig : ((openedOnce.foldl next booted).processTable.get? 1).any (fun p => p.fdTable.size < 5 ∧
      0 ≤ (openFile (openedOnce.foldl next booted).vfs (readCString p "/dev/null".toList) 0 0).2) = true := by
    decide +kernel
  obtain ⟨p, hp, hroom⟩ := (Option.any_eq_true _ _).1 helig
  obtain ⟨fd, -, hok⟩ := hserves.served ⟨p, hp, of_decide_eq_true hroom⟩
  have hrefused : (serve 5 (openedOnce.foldl next booted) 1 .answered
      (.openat "/dev/null".toList 0 0)).2.toOption = none := by
    decide +kernel
  rw [show (serve 5 (openedOnce.foldl next booted) 1 .answered
    (.openat "/dev/null".toList 0 0)).2 = .ok fd from hok] at hrefused
  cases hrefused

theorem not_free_openedTwice : ¬ Meets Free booted (trace next booted openedTwice) :=
  fun h => not_granted_openedTwice
    ((granted_iff_free starts_booted (isRun_trace next booted openedTwice)).2 h)

theorem not_granted : ¬ ∀ (k : Kernel.State) (tr : List (Act × Kernel.State)),
    Starts k → IsRun Step k tr → EachStep Granted k tr :=
  fun h => not_granted_openedTwice
    (h booted _ starts_booted (isRun_trace next booted openedTwice))

end DescriptorLimits
