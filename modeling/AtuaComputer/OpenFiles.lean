/-
**The lifetime of open files.**

The filesystem's table of open files is shared by all processes; a description is opened with a
descriptor of its own number, and `dup`, `fcntl` and the forks make further descriptors for it.  It should
be in the table exactly as long as some descriptor of some process refers to it.  Nothing counts the
descriptors, so closing one of several removes the description from under the others, and overwriting
or forgetting the last one leaves the description behind.

Main definitions:

* `OpenFiles.Lifetime` — what should hold of the descriptors and the table of open files;
* `OpenFiles.Keeps` — the condition on an event under which it keeps that.

Main results:

* `OpenFiles.coherent_after` — the condition is exact for one event;
* `OpenFiles.lifetime_iff_keeps` — a run keeps the lifetimes throughout **if and only if** all its events
  meet the condition.
-/

import AtuaComputer.Descriptors
import AtuaComputer.Runs

set_option relaxedAutoImplicit false
set_option autoImplicit false

namespace OpenFiles

open Kernel VirtualFs SharedRefs Runs

/-- The descriptions that the filesystem has from the start. -/
def Preset (h : ℤ) : Prop := h = 0 ∨ h = 1 ∨ h = 2

/-- Every descriptor of a file or directory refers to an open description, and every description that
was opened is referred to by a descriptor of some process. -/
structure Lifetime (k : Kernel.State) : Prop where
  live : ∀ slot h, handleAt k slot = some h → k.vfs.openFiles.has h = true
  held : ∀ h, k.vfs.openFiles.has h = true → ¬ Preset h → ∃ slot, handleAt k slot = some h

/-- No descriptor but the touched ones refers to the description that is closed, and everything else the
touched ones refer to is also referred to by others. -/
def Keeps (k : Kernel.State) (ev : Event) : Prop :=
  Releases (handleAt k) ((effectOf k ev).touch.slots k) (effectOf k ev).closes

/-! ### The numbers of descriptions -/

/-- No descriptor refers to a preset description. -/
def Opened (k : Kernel.State) : Prop := ∀ slot h, handleAt k slot = some h → 2 < h

theorem not_preset {h : ℤ} (hh : 2 < h) : ¬ Preset h := by
  rintro (h0 | h1 | h2) <;> omega

/-- A live description: one that was opened and not closed. -/
def Live (k : Kernel.State) (h : ℤ) : Prop := k.vfs.openFiles.has h = true ∧ ¬ Preset h

theorem lifetime_iff_coherent {k : Kernel.State} (ho : Opened k) :
    Lifetime k ↔ Coherent (handleAt k) (Live k) := by
  constructor
  · intro hl h
    constructor
    · rintro ⟨hhas, hpreset⟩
      exact hl.held h hhas hpreset
    · rintro ⟨slot, hslot⟩
      exact ⟨hl.live slot h hslot, not_preset (ho slot h hslot)⟩
  · intro hc
    constructor
    · intro slot h hslot
      exact ((hc h).2 ⟨slot, hslot⟩).1
    · intro h hhas hpreset
      exact (hc h).1 ⟨hhas, hpreset⟩

theorem special_handle (name : Special) : FdKind.handle? (.special name) = none := rfl

theorem handle_openKind (vfsFd : ℤ) (isDir : Bool) : (openKind vfsFd isDir).handle? = some vfsFd := by
  cases isDir <;> rfl

section Step

variable {k : Kernel.State} (hw : Wf k) (ev : Event)

include hw

/-- The descriptor of an opened file refers to it. -/
theorem handleAt_opened {pid vfsFd : ℤ} {isDir : Bool}
    (ht : (effectOf k ev).touch = .open pid vfsFd isDir) :
    handleAt (after k ev) (pid, vfsFd) = some vfsFd := by
  have h := (took_after hw.nextFd_nonneg ev).kindAt pid vfsFd
  rw [ht, Touch.lookup, if_pos ⟨rfl, rfl⟩] at h
  rw [handleAt, refs, h]
  exact handle_openKind vfsFd isDir

/-- An event that opens nothing makes no new reference to a description. -/
theorem handle_copied (hopen : ∀ pid vfsFd isDir, (effectOf k ev).touch ≠ .open pid vfsFd isDir)
    (s : ℤ × ℤ) (h : ℤ) (hs : (effectOf k ev).touch.slots k s)
    (hh : handleAt (after k ev) s = some h) :
    HeldOutside (handleAt k) ((effectOf k ev).touch.slots k) h := by
  have hnew : ∀ pid vfsFd isDir, (effectOf k ev).touch = .open pid vfsFd isDir →
      (openKind vfsFd isDir).handle? = none :=
    fun pid vfsFd isDir ht => absurd ht (hopen pid vfsFd isDir)
  exact refs_copied (took_after hw.nextFd_nonneg ev) (shape_effectOf k ev) hnew
    (fun _ _ _ _ _ _ => rfl) s h hs hh

/-- **Every event keeps descriptors away from the preset descriptions.** -/
theorem opened_after (ho : Opened k) : Opened (after k ev) := by
  have htook := took_after hw.nextFd_nonneg ev
  intro s h hh
  by_cases hs : (effectOf k ev).touch.slots k s
  · by_cases hopen : ∃ pid vfsFd isDir, (effectOf k ev).touch = .open pid vfsFd isDir
    · obtain ⟨pid, vfsFd, isDir, ht⟩ := hopen
      rw [ht, Touch.slots] at hs
      rw [hs, handleAt_opened hw ev ht, Option.some_inj] at hh
      have hfd := (htook.opens ht).1
      have hpos := hw.numbered.pos
      omega
    · have hopen : ∀ pid vfsFd isDir, (effectOf k ev).touch ≠ .open pid vfsFd isDir :=
        fun pid vfsFd isDir ht => hopen ⟨pid, vfsFd, isDir, ht⟩
      obtain ⟨s', hs'⟩ := (handle_copied hw ev hopen s h hs hh).held
      exact ho s' h hs'
  · refine ho s h ?_
    rw [← hh]
    exact (refs_outside special_handle htook s hs).symm

/-- What an event that opens nothing leaves live. -/
theorem live_after (hopen : ∀ pid vfsFd isDir, (effectOf k ev).touch ≠ .open pid vfsFd isDir) (h : ℤ) :
    Live (after k ev) h ↔ Live k h ∧ (effectOf k ev).closes ≠ some h := by
  have hcloses := (took_after hw.nextFd_nonneg ev).closesHandle hopen
  unfold Live
  rw [hcloses.has]
  tauto

/-- What opening leaves live. -/
theorem live_opened {pid vfsFd : ℤ} {isDir : Bool}
    (ht : (effectOf k ev).touch = .open pid vfsFd isDir) (h : ℤ) :
    Live (after k ev) h ↔ Live k h ∨ h = vfsFd := by
  obtain ⟨hfd, -, file, ho⟩ := (took_after hw.nextFd_nonneg ev).opens ht
  have hpos := hw.numbered.pos
  unfold Live
  rw [JsMap.has_iff, JsMap.has_iff, ho, hfd]
  simp only [JsMap.get?_set]
  by_cases hn : h = k.vfs.nextFd
  · simp [hn, not_preset hpos]
  · simp [hn]

/-- **The condition is exact for one event.** -/
theorem coherent_after (hc : Coherent (handleAt k) (Live k)) :
    Coherent (handleAt (after k ev)) (Live (after k ev)) ↔ Keeps k ev := by
  have hout : ∀ s, ¬ (effectOf k ev).touch.slots k s → handleAt (after k ev) s = handleAt k s :=
    refs_outside special_handle (took_after hw.nextFd_nonneg ev)
  unfold Keeps
  by_cases hopen : ∃ pid vfsFd isDir, (effectOf k ev).touch = .open pid vfsFd isDir
  · obtain ⟨pid, vfsFd, isDir, ht⟩ := hopen
    have hslot := handleAt_opened hw ev ht
    have hnew : ∀ r, (∃ t, (effectOf k ev).touch.slots k t ∧ handleAt (after k ev) t = some r) ↔
        r = vfsFd := by
      intro r
      rw [ht]
      constructor
      · rintro ⟨t, htslot, htr⟩
        rw [Touch.slots] at htslot
        rw [htslot, hslot] at htr
        exact (Option.some_inj.1 htr).symm
      · intro hr
        exact ⟨(pid, vfsFd), rfl, by rw [hslot, hr]⟩
    have hlive : ∀ r, Live (after k ev) r ↔
        Live k r ∨ ∃ t, (effectOf k ev).touch.slots k t ∧ handleAt (after k ev) t = some r := by
      intro r
      rw [live_opened hw ev ht, hnew]
    rw [coherent_start hc hout hlive, (shape_effectOf k ev).closes_of_open ht]
    constructor
    · intro h
      refine ⟨fun _ hnone => (Option.some_ne_none _ hnone.symm).elim, fun s r hs hr _ => ?_⟩
      rcases h s r hs hr with hheld | hcame
      · exact hheld
      · -- the number of the new description is not in use
        have hlt := hw.numbered.lt r ((hc r).2 ⟨s, hr⟩).1
        rw [(hnew r).1 hcame, ((took_after hw.nextFd_nonneg ev).opens ht).1] at hlt
        exact absurd hlt (Int.lt_irrefl _)
    · intro h s r hs hr
      exact Or.inl (h.keeps s r hs hr (Option.some_ne_none r).symm)
  · have hopen : ∀ pid vfsFd isDir, (effectOf k ev).touch ≠ .open pid vfsFd isDir :=
      fun pid vfsFd isDir ht => hopen ⟨pid, vfsFd, isDir, ht⟩
    exact coherent_release hc hout (live_after hw ev hopen) (handle_copied hw ev hopen)

end Step

/-! ### Runs -/

theorem opened_of_starts {k : Kernel.State} (hk : Starts k) : Opened k := by
  intro slot h hh
  rw [handleAt, refs, kindAt_of_noProc (hk.noProc slot.1)] at hh
  cases hh

theorem lifetime_of_starts {k : Kernel.State} (hk : Starts k) : Lifetime k where
  live := by
    intro slot h hh
    rw [handleAt, refs, kindAt_of_noProc (hk.noProc slot.1)] at hh
    cases hh
  held := by
    intro h hhas hpreset
    obtain ⟨file, hfile⟩ := JsMap.has_iff.1 hhas
    rw [hk.table.2] at hfile
    simp only [newVfs, JsMap.get?_set, JsMap.get?_empty] at hfile
    unfold Preset at hpreset
    split_ifs at hfile <;> tauto

/-- **The lifetimes are kept throughout a run exactly when all its events meet the condition.** -/
theorem lifetime_iff_keeps {k : Kernel.State} {tr : List (Event × Kernel.State)} (hk : Starts k)
    (hrun : IsRun Step k tr) : Throughout Lifetime k tr ↔ Meets Keeps k tr := by
  have hstep : ∀ s ev s', (Wf s ∧ Opened s) ∧ Lifetime s → Step s ev s' →
      ((Wf s' ∧ Opened s') ∧ Lifetime s' ↔ Keeps s ev) := by
    rintro s ev s' ⟨⟨hw, ho⟩, hl⟩ rfl
    have ho' := opened_after hw ev ho
    rw [lifetime_iff_coherent ho', ← coherent_after hw ev ((lifetime_iff_coherent ho).1 hl)]
    exact and_iff_right ⟨wf_after hw ev, ho'⟩
  have hkeep : ∀ s ev s', Wf s ∧ Opened s → Step s ev s' → Wf s' ∧ Opened s' := by
    rintro s ev s' ⟨hw, ho⟩ rfl
    exact ⟨wf_after hw ev, opened_after hw ev ho⟩
  have hstart : Wf k ∧ Opened k := ⟨wf_of_starts hk, opened_of_starts hk⟩
  rw [← throughout_iff_meets hstep ⟨hstart, lifetime_of_starts hk⟩ hrun]
  exact throughout_and_iff (throughout_of_isRun hkeep hstart hrun)

/-- A process opens a file, duplicates the descriptor, and closes the one it opened. -/
def closedFirst : List Event :=
  [.registerWorker 1, .registerMemory 1, .call 1 (.open "/dev/null".toList 0 0) .answered,
    .call 1 (.dup 4) .answered, .call 1 (.close 4) .answered]

/-- The duplicate refers to a description that is gone. -/
theorem not_lifetime_closedFirst : ¬ Throughout Lifetime booted (trace after booted closedFirst) := by
  intro h
  have hend := h.final
  rw [final_trace] at hend
  have hcopy : handleAt (closedFirst.foldl after booted) (1, 5) = some 4 := by decide
  have hgone : (closedFirst.foldl after booted).vfs.openFiles.has 4 = false := by decide
  rw [hend.live (1, 5) 4 hcopy] at hgone
  cases hgone

theorem not_keeps_closedFirst : ¬ Meets Keeps booted (trace after booted closedFirst) :=
  fun h => not_lifetime_closedFirst
    ((lifetime_iff_keeps starts_booted (isRun_trace after booted closedFirst)).2 h)

theorem not_lifetime : ¬ ∀ (k : Kernel.State) (tr : List (Event × Kernel.State)),
    Starts k → IsRun Step k tr → Throughout Lifetime k tr :=
  fun h => not_lifetime_closedFirst
    (h booted _ starts_booted (isRun_trace after booted closedFirst))

end OpenFiles
