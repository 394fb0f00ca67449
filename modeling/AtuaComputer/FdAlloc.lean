/-
**Descriptor numbers.**

Three counters hand out the numbers of descriptors: the filesystem's, which all processes share, the one
of each process, and the bridge's counter of pipes.  All three write into the table of the calling
process, and only `fcntl` looks whether the number is in use.  Numbers are JavaScript numbers in the
kernel, and what the caller gets is the word in `control[8]`.

Main definitions:

* `FdAlloc.Fresh` — an allocation that takes new numbers and leaves everything else alone;
* `FdAlloc.Usable`, `FdAlloc.Free` — the condition on a number, and on an event.

Main results:

* `FdAlloc.fresh_put_iff` — one allocation is fresh exactly when its number is usable;
* `FdAlloc.neverClobbers_iff_free` — every allocation of a run is fresh **if and only if** all its events
  meet the condition.
-/

import AtuaComputer.Descriptors
import AtuaComputer.Runs

set_option relaxedAutoImplicit false
set_option autoImplicit false

namespace FdAlloc

open Kernel VirtualFs Bridge Runs

/-! ### The property -/

/-- What a syscall leaves in `control[8]`. -/
def returned (o : Outcome) : ℤ := (Int32.ofInt o.result).toInt

/-- The numbers that an allocating call hands out, from what it returns.  A pipe comes back as its
number, from which those of its two descriptors follow. -/
def numbers : Call → ℤ → List ℤ
  | .open _ _ _, r | .openat _ _ _, r | .fsOpen _ _ _, r | .dup _, r | .fcntl _ _ _, r => [r]
  | .pipeCreate, r => [r * 2 + 100, r * 2 + 101]
  | _, _ => []

/-- The calls that allocate descriptors. -/
def Allocates : Call → Prop
  | .open _ _ _ | .openat _ _ _ | .fsOpen _ _ _ | .dup _ | .pipeCreate => True
  | .fcntl _ b _ => b = 0 ∨ b = 1030
  | _ => False

/-- The numbers were not in use, they are now, and no other entry of any table has changed. -/
structure Fresh (k : Kernel.State) (pid : ℤ) (ns : List ℤ) (k' : Kernel.State) : Prop where
  unused : ∀ n ∈ ns, entryAt k pid n = none
  made : ∀ n ∈ ns, entryAt k' pid n ≠ none
  kept : ∀ q i, ¬ (q = pid ∧ i ∈ ns) → entryAt k' q i = entryAt k q i
  flags : k.cloexec <+: k'.cloexec

/-- An allocating call that succeeds is fresh. -/
def NeverClobbers (k : Kernel.State) : Event → Kernel.State → Prop
  | .call pid call fate, k' =>
    let r := returned (handleSyscall k pid call fate)
    Allocates call → 0 ≤ r → Fresh k pid (numbers call r) k'
  | _, _ => True

/-! ### The condition -/

/-- A number that reaches the caller as an error, or as itself while it is not in use. -/
def Usable (p : Proc) (n : ℤ) : Prop :=
  (Int32.ofInt n).toInt < 0 ∨ (0 ≤ n ∧ n < 2 ^ 31 ∧ p.fdTable.has n = false)

/-- The number that a call takes from a counter, if it gets that far. -/
def taken (k : Kernel.State) (p : Proc) : Call → Option ℤ
  | .open path b c | .openat path b c | .fsOpen path b c =>
    if 0 ≤ (openFile k.vfs (readCString p path) b c).2 then some k.vfs.nextFd else none
  | .dup a => if p.fdTable.has a.toInt then some p.nextFd else none
  | .fcntl a b c =>
    if p.fdTable.has a.toInt ∧ (b = 0 ∨ b = 1030) then some (p.fdTable.firstFree c.toUInt32.toNat)
    else none
  | _ => none

/-- The number from the counter is usable; and those of a new pipe are not in use. -/
def Free (k : Kernel.State) : Event → Prop
  | .call pid call fate =>
    ∀ p, k.processTable.get? pid = some p →
      (∀ n, taken k p call = some n → Usable p n) ∧
      ∀ b, call = .pipeCreate → k.bridge = some b → Creates b fate →
        ∀ e, p.fdTable.has (fdOf b.nextPipeSlot e) = false
  | _ => True

/-! ### One allocation -/

section Put

variable {k k₁ : Kernel.State} {pid : ℤ} {p : Proc} (hp : k.processTable.get? pid = some p)
  (htab : k₁.processTable = k.processTable) (hflags : k₁.cloexec = k.cloexec)

include hp htab hflags

theorem entryAt_put (n : ℤ) (kind : FdKind) (cloexec : Bool) (q i : ℤ) :
    entryAt (bumpFd (putFd k₁ pid n kind cloexec) pid n) q i =
      if q = pid ∧ i = n then some ⟨kind, k.cloexec.length⟩ else entryAt k q i := by
  have hhas : k₁.processTable.has pid = true := by
    rw [htab]
    exact JsMap.has_iff.2 ⟨p, hp⟩
  rw [entryAt_bumpFd, entryAt_putFd hhas, hflags, entryAt, htab, ← entryAt]

/-- **One allocation is fresh exactly when its number is usable.** -/
theorem fresh_put_iff (n : ℤ) (kind : FdKind) (cloexec : Bool) :
    (0 ≤ (Int32.ofInt n).toInt →
        Fresh k pid [(Int32.ofInt n).toInt] (bumpFd (putFd k₁ pid n kind cloexec) pid n)) ↔
      Usable p n := by
  have hentry := entryAt_put hp htab hflags n kind cloexec
  constructor
  · intro h
    by_cases hneg : (Int32.ofInt n).toInt < 0
    · exact Or.inl hneg
    · have hfresh := h (by omega)
      have hsame : (Int32.ofInt n).toInt = n := by
        by_contra hne
        -- the number that came back names no descriptor
        have hmade := hfresh.made _ (List.mem_singleton_self _)
        rw [hentry, if_neg (fun hpn => hne hpn.2)] at hmade
        exact hmade (hfresh.unused _ (List.mem_singleton_self _))
      have hunused := hfresh.unused _ (List.mem_singleton_self _)
      rw [hsame, entryAt_eq hp] at hunused
      have hlt := (Int32.ofInt n).toInt_lt
      exact Or.inr ⟨by omega, by omega, JsMap.has_eq_false_iff.2 hunused⟩
  · rintro (hneg | ⟨hpos, hlt, hfree⟩) hr
    · omega
    · have hsame : (Int32.ofInt n).toInt = n := by
        rw [Int32.toInt_ofInt, Int.bmod_eq_of_le (by unfold Int32.size; omega) (by unfold Int32.size; omega)]
      rw [hsame]
      refine ⟨?_, ?_, ?_, ?_⟩
      · intro m hm
        rw [List.mem_singleton.1 hm, entryAt_eq hp]
        exact JsMap.has_eq_false_iff.1 hfree
      · intro m hm
        rw [List.mem_singleton.1 hm, hentry, if_pos ⟨rfl, rfl⟩]
        exact Option.some_ne_none _
      · intro q i hqi
        rw [hentry, if_neg]
        rintro ⟨hq, hi⟩
        exact hqi ⟨hq, List.mem_singleton.2 hi⟩
      · rw [cloexec_bumpFd, cloexec_putFd, hflags]
        exact List.prefix_append _ _

/-- The two numbers of a pipe are fresh exactly when neither is in use. -/
theorem fresh_putPipe_iff (r w : ℤ) (kr kw : FdKind) :
    Fresh k pid [r, w] (putFd (putFd k₁ pid r kr false) pid w kw false) ↔
      p.fdTable.has r = false ∧ p.fdTable.has w = false := by
  have hhas : k₁.processTable.has pid = true := by
    rw [htab]
    exact JsMap.has_iff.2 ⟨p, hp⟩
  have hold : ∀ q i, entryAt k₁ q i = entryAt k q i := by
    intro q i
    rw [entryAt, htab, entryAt]
  have hentry : ∀ q i, entryAt (putFd (putFd k₁ pid r kr false) pid w kw false) q i =
      if q = pid ∧ i = w then some ⟨kw, k.cloexec.length + 1⟩
      else if q = pid ∧ i = r then some ⟨kr, k.cloexec.length⟩ else entryAt k q i := by
    intro q i
    rw [entryAt_putFd (by rw [has_putFd]; exact hhas), entryAt_putFd hhas, hold, cloexec_putFd, hflags,
      List.length_append, List.length_singleton]
  constructor
  · intro h
    have hr := h.unused r (List.mem_cons_self)
    have hw := h.unused w (List.mem_cons_of_mem r (List.mem_singleton_self w))
    rw [entryAt_eq hp] at hr hw
    exact ⟨JsMap.has_eq_false_iff.2 hr, JsMap.has_eq_false_iff.2 hw⟩
  · rintro ⟨hr, hw⟩
    refine ⟨?_, ?_, ?_, ?_⟩
    · intro n hn
      rw [entryAt_eq hp]
      rcases List.mem_pair.1 hn with rfl | rfl
      · exact JsMap.has_eq_false_iff.1 hr
      · exact JsMap.has_eq_false_iff.1 hw
    · intro n hn
      rw [hentry]
      rcases List.mem_pair.1 hn with rfl | rfl
      · split_ifs
        · exact Option.some_ne_none _
        · exact Option.some_ne_none _
        · tauto
      · rw [if_pos ⟨rfl, rfl⟩]
        exact Option.some_ne_none _
    · intro q i hqi
      rw [List.mem_pair] at hqi
      rw [hentry, if_neg (by tauto), if_neg (by tauto)]
    · rw [cloexec_putFd, cloexec_putFd, hflags, List.append_assoc]
      exact List.prefix_append _ _

end Put

/-- What a call that takes a number from a counter does with it. -/
def TakesNumber (k : Kernel.State) (pid : ℤ) (n : ℤ) (o : Outcome) : Prop :=
  o.result = n ∧ ∃ k₁ kind cloexec, k₁.processTable = k.processTable ∧ k₁.cloexec = k.cloexec ∧
    o.kernel = bumpFd (putFd k₁ pid n kind cloexec) pid n

section Calls

variable {k : Kernel.State} {pid : ℤ} {p : Proc}

/-- A call that takes its number from a counter is fresh exactly when that number is usable. -/
theorem fresh_iff_usable (hp : k.processTable.get? pid = some p) {c : Prop} [Decidable c] {n : ℤ}
    {o : Outcome} (ho : if c then TakesNumber k pid n o else returned o < 0) :
    (0 ≤ returned o → Fresh k pid [returned o] o.kernel) ↔
      ∀ m, (if c then some n else none) = some m → Usable p m := by
  by_cases hc : c
  · rw [if_pos hc] at ho
    obtain ⟨hres, k₁, kind, cloexec, htab, hflags, hk⟩ := ho
    rw [returned, hres, hk, fresh_put_iff hp htab hflags, if_pos hc]
    exact ⟨fun h m hm => Option.some_inj.1 hm ▸ h, fun h => h n rfl⟩
  · rw [if_neg hc] at ho
    rw [if_neg hc]
    refine iff_of_true (fun hr => absurd hr (Int.not_le.2 ho)) ?_
    intro m hm
    cases hm

theorem openPath_takes (hn : 0 ≤ k.vfs.nextFd) (path : Path) (flags mode : Int32) :
    let o := openPath k pid p path flags mode
    if 0 ≤ (openFile k.vfs (readCString p path) flags mode).2 then TakesNumber k pid k.vfs.nextFd o
    else returned o < 0 := by
  have hcases := openFile_cases k.vfs (readCString p path) flags mode
  unfold openPath
  generalize openFile k.vfs (readCString p path) flags mode = r at hcases ⊢
  obtain ⟨v, vfsFd⟩ := r
  rcases hcases with ⟨hneg, -⟩ | ⟨file, hres, -⟩
  · have hneg' : ¬ 0 ≤ vfsFd := by
      rcases hneg with h | h <;> simp only at h <;> omega
    simp only [if_neg hneg', returned]
    rcases hneg with h | h <;> simp only at h <;> rw [h] <;> decide
  · have hres : vfsFd = k.vfs.nextFd := hres
    subst hres
    simp only [if_pos hn]
    exact ⟨rfl, { k with vfs := v }, _, false, rfl, rfl, rfl⟩

theorem sysDup_takes (a : Int32) :
    let o := sysDup k pid p a
    if p.fdTable.has a.toInt then TakesNumber k pid p.nextFd o else returned o < 0 := by
  unfold sysDup JsMap.has
  cases p.fdTable.get? a.toInt with
  | none => exact (by decide : (Int32.ofInt (-9)).toInt < 0)
  | some entry => exact ⟨rfl, k, entry.kind, false, rfl, rfl, rfl⟩

theorem sysFcntl_takes (a b c : Int32) (hb : b = 0 ∨ b = 1030) :
    let o := sysFcntl k pid p a b c
    if p.fdTable.has a.toInt then TakesNumber k pid (p.fdTable.firstFree c.toUInt32.toNat) o
    else returned o < 0 := by
  unfold sysFcntl JsMap.has
  cases p.fdTable.get? a.toInt with
  | none => exact (by decide : (Int32.ofInt (-9)).toInt < 0)
  | some entry =>
      simp only [if_pos hb]
      exact ⟨rfl, k, entry.kind, _, rfl, rfl, rfl⟩

theorem sysPipeCreate_fails (fate : Fate)
    (h : ∀ b, k.bridge = some b → Bridge.Wf b ∧ ¬ Creates b fate) :
    returned (sysPipeCreate k pid fate) < 0 := by
  unfold sysPipeCreate request
  cases hb : k.bridge with
  | none => exact (by decide : (Int32.ofInt (-38)).toInt < 0)
  | some b =>
      obtain ⟨hwf, hnot⟩ := h b hb
      have hreply := reply_pipeCreate hwf fate
      rw [if_neg hnot] at hreply
      have herr : timedOut.err ≠ 0 := by decide
      simp only [hreply, if_pos herr]
      exact (by decide : (Int32.ofInt (-timedOut.err.toInt)).toInt < 0)

/-- A new pipe is fresh exactly when its numbers are not in use. -/
theorem sysPipeCreate_fresh_iff (hp : k.processTable.get? pid = some p) {b : Bridge.State}
    (hb : k.bridge = some b) (hwf : Bridge.Wf b) {fate : Fate} (hc : Creates b fate) :
    let o := sysPipeCreate k pid fate
    (0 ≤ returned o → Fresh k pid (numbers .pipeCreate (returned o)) o.kernel) ↔
      ∀ e, p.fdTable.has (fdOf b.nextPipeSlot e) = false := by
  have hslot := hc.le hwf
  obtain ⟨hval, hr1, -⟩ := pipeCreate_numbers hslot
  have hreply := reply_pipeCreate hwf fate
  rw [if_pos hc] at hreply
  have hid : ((fdOf b.nextPipeSlot .read : ℤ) - 100) / 2 = b.nextPipeSlot := by
    simp only [fdOf]
    omega
  have hret : (Int32.ofInt (b.nextPipeSlot : ℤ)).toInt = b.nextPipeSlot := by
    rw [Int32.toInt_ofInt,
      Int.bmod_eq_of_le (by unfold Int32.size; omega) (by unfold Int32.size; omega)]
  have herr : ¬ (pipeCreate b).2.err ≠ 0 := fun h => h rfl
  have hread : ((b.nextPipeSlot : ℤ) * 2 + 100) = fdOf b.nextPipeSlot .read := by simp [fdOf]
  have hwrite : ((b.nextPipeSlot : ℤ) * 2 + 101) = fdOf b.nextPipeSlot .write := by simp [fdOf]
  unfold sysPipeCreate request
  simp only [hb, hreply, if_neg herr, returned, hval, hr1, hid, hret, numbers, hread, hwrite]
  rw [@fresh_putPipe_iff k { k with bridge := some (callBridge b .pipeCreate fate).1 } pid p hp rfl rfl]
  constructor
  · intro h e
    have hboth := h (Int.natCast_nonneg _)
    cases e
    · exact hboth.1
    · exact hboth.2
  · intro h _
    exact ⟨h .read, h .write⟩

end Calls

/-- The same for all syscalls. -/
theorem fresh_iff_free {k : Kernel.State} (hw : Wf k) {pid : ℤ} {p : Proc}
    (hp : k.processTable.get? pid = some p) (call : Call) (fate : Fate) :
    let o := handleSyscall k pid call fate
    (Allocates call → 0 ≤ returned o → Fresh k pid (numbers call (returned o)) o.kernel) ↔
      (∀ n, taken k p call = some n → Usable p n) ∧
        ∀ b, call = .pipeCreate → k.bridge = some b → Creates b fate →
          ∀ e, p.fdTable.has (fdOf b.nextPipeSlot e) = false := by
  have hnot : call ≠ .pipeCreate →
      ((∀ b, call = .pipeCreate → k.bridge = some b → Creates b fate →
        ∀ e, p.fdTable.has (fdOf b.nextPipeSlot e) = false) ↔ True) :=
    fun hne => iff_true_intro fun b hc => absurd hc hne
  dsimp only
  rw [handleSyscall, hp]
  cases call with
  | «open» path b c =>
      rw [hnot Call.noConfusion, and_true]
      simp only [Allocates, numbers, taken, true_imp_iff]
      exact fresh_iff_usable hp (openPath_takes hw.nextFd_nonneg path b c)
  | openat path c d =>
      rw [hnot Call.noConfusion, and_true]
      simp only [Allocates, numbers, taken, true_imp_iff]
      exact fresh_iff_usable hp (openPath_takes hw.nextFd_nonneg path c d)
  | fsOpen path b c =>
      rw [hnot Call.noConfusion, and_true]
      simp only [Allocates, numbers, taken, true_imp_iff]
      exact fresh_iff_usable hp (openPath_takes hw.nextFd_nonneg path b c)
  | dup a =>
      rw [hnot Call.noConfusion, and_true]
      simp only [Allocates, numbers, taken, true_imp_iff]
      exact fresh_iff_usable hp (sysDup_takes a)
  | fcntl a b c =>
      rw [hnot Call.noConfusion, and_true]
      simp only [Allocates, numbers, taken]
      by_cases hb : b = 0 ∨ b = 1030
      · simp only [hb, true_imp_iff, and_true]
        exact fresh_iff_usable hp (sysFcntl_takes a b c hb)
      · simp [hb]
  | pipeCreate =>
      simp only [Allocates, taken, true_imp_iff]
      -- the descriptors of a pipe have the numbers of its slot, not those of the counter
      by_cases hc : ∃ b, k.bridge = some b ∧ Creates b fate
      · obtain ⟨b, hb, hcreates⟩ := hc
        refine (sysPipeCreate_fresh_iff hp hb (hw.bridge b hb) hcreates).trans ?_
        constructor
        · intro h
          refine ⟨?_, ?_⟩
          · intro n hn
            cases hn
          · intro b' hb' _ e
            rw [hb] at hb'
            cases hb'
            exact h e
        · intro h
          exact h.2 b hb hcreates
      · have hfails : returned (sysPipeCreate k pid fate) < 0 :=
          sysPipeCreate_fails fate fun b hb => ⟨hw.bridge b hb, fun hcreates => hc ⟨b, hb, hcreates⟩⟩
        refine iff_of_true (fun hr => absurd hr (Int.not_le.2 hfails)) ⟨?_, ?_⟩
        · intro n hn
          cases hn
        · intro b hb hcreates
          exact absurd ⟨b, hb, hcreates⟩ hc
  | _ =>
      rw [hnot Call.noConfusion, and_true]
      simp [Allocates, taken]

/-- **The condition is exact for one event.** -/
theorem neverClobbers_after_iff {k : Kernel.State} (hw : Wf k) (ev : Event) :
    NeverClobbers k ev (after k ev) ↔ Free k ev := by
  cases ev with
  | call pid call fate =>
      simp only [NeverClobbers, Free, after]
      cases hp : k.processTable.get? pid with
      | none =>
          have hret : returned (handleSyscall k pid call fate) < 0 := by
            rw [handleSyscall, hp]
            exact (by decide : (Int32.ofInt (-1)).toInt < 0)
          refine iff_of_true (fun _ hr => absurd hr (Int.not_le.2 hret)) ?_
          intro p hp'
          cases hp'
      | some p =>
          refine (fresh_iff_free hw hp call fate).trans ?_
          simp only [Option.some_inj, forall_eq']
  | _ => exact Iff.rfl

/-! ### Runs -/

/-- **Every allocation of a run is fresh exactly when all its events meet the condition.** -/
theorem neverClobbers_iff_free {k : Kernel.State} {tr : List (Event × Kernel.State)} (hk : Starts k)
    (hrun : IsRun Step k tr) : EachStep NeverClobbers k tr ↔ Meets Free k tr := by
  refine eachStep_iff_meets ?_ ?_ (wf_of_starts hk) hrun
  · rintro s ev s' hw rfl
    exact wf_after hw ev
  · rintro s ev s' hw rfl
    exact neverClobbers_after_iff hw ev

/-- A process duplicates a descriptor to the number that the filesystem will hand out next, and opens a
file. -/
def openOver : List Event :=
  [.registerWorker 1, .registerMemory 1, .call 1 (.fcntl 0 0 4) .answered,
    .call 1 (.open "/dev/null".toList 0 0) .answered]

/-- The file takes the number of the duplicate. -/
theorem not_neverClobbers_openOver : ¬ EachStep NeverClobbers booted (trace after booted openOver) := by
  intro h
  have hopen := h.2.2.2.1
  have hfresh := hopen trivial (by decide)
  exact absurd (hfresh.unused 4 (by decide)) (by decide)

theorem not_free_openOver : ¬ Meets Free booted (trace after booted openOver) :=
  fun h => not_neverClobbers_openOver
    ((neverClobbers_iff_free starts_booted (isRun_trace after booted openOver)).2 h)

theorem not_neverClobbers : ¬ ∀ (k : Kernel.State) (tr : List (Event × Kernel.State)),
    Starts k → IsRun Step k tr → EachStep NeverClobbers k tr :=
  fun h => not_neverClobbers_openOver
    (h booted _ starts_booted (isRun_trace after booted openOver))

end FdAlloc
