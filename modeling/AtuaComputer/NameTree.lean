/-
**A tree of names kept in tables.**

A filesystem may keep its tree in tables: which paths are files, directories or links, which are hidden,
and which names have been entered for a directory.  Nothing but the operations keeps the tables in step.

This module is the tables over arbitrary names, a path being the list of its names; what it means that they
are in step; the operations; and what each of them needs to keep the tables so.  The walk along links is
here too: where a path in a directory leads, the directory leads to a directory.

Main definitions:

* `NameTree.Tables`, `NameTree.Wf` — the tables, and that they are in step;
* `NameTree.putFile`, `NameTree.makeDir`, `NameTree.putLink`, `NameTree.remove`, `NameTree.removeDir`,
  `NameTree.move` — the operations;
* `NameTree.resolve` — the walk along links.

Main results:

* `NameTree.Wf.putFile` and its like — what the operations need;
* `NameTree.Wf.above` — what is above something that is there is a directory;
* `NameTree.Wf.resolve_parent` — so it is along links.
-/

import Mathlib.Data.List.Induction

set_option relaxedAutoImplicit false
set_option autoImplicit false

namespace NameTree

variable {N : Type}

/-! ### Paths -/

/-- One path lies strictly above another. -/
def Above (a p : List N) : Prop := a <+: p ∧ a ≠ p

theorem above_append (d : List N) (n : N) : Above d (d ++ [n]) := by
  refine ⟨List.prefix_append d [n], fun h => ?_⟩
  simpa using congrArg List.length h

theorem not_above_self (p : List N) : ¬ Above p p := fun h => h.2 rfl

theorem not_above_nil (a : List N) : ¬ Above a [] := fun h => h.2 (List.prefix_nil.1 h.1)

theorem Above.length_lt {a p : List N} (h : Above a p) : a.length < p.length := by
  refine Nat.lt_of_le_of_ne h.1.length_le fun e => ?_
  exact h.2 (h.1.eq_of_length e)

/-- What lies above a path lies above its directory, or is it. -/
theorem above_append_iff {a d : List N} {n : N} : Above a (d ++ [n]) ↔ a = d ∨ Above a d := by
  constructor
  · rintro ⟨hpre, hne⟩
    rcases List.prefix_concat_iff.1 hpre with h | h
    · exact absurd h hne
    · by_cases he : a = d
      · exact Or.inl he
      · exact Or.inr ⟨h, he⟩
  · rintro (rfl | h)
    · exact above_append a n
    · refine ⟨h.1.trans (List.prefix_append d [n]), ?_⟩
      rintro rfl
      have hlt := h.length_lt
      rw [List.length_append, List.length_singleton] at hlt
      omega

theorem Above.trans {a b p : List N} (h : Above a b) (h' : Above b p) : Above a p := by
  refine ⟨h.1.trans h'.1, ?_⟩
  rintro rfl
  have hlt := h.length_lt
  have hlt' := h'.length_lt
  omega

/-- The directory of something above a path is above it. -/
theorem Above.of_append {d p : List N} {n : N} (h : Above (d ++ [n]) p) : Above d p :=
  (above_append d n).trans h

theorem append_ne_self (d : List N) (n : N) : d ++ [n] ≠ d := fun h => (above_append d n).2 h.symm

theorem append_ne_nil (d : List N) (n : N) : d ++ [n] ≠ [] := by simp

/-! ### Tables -/

/-- What is kept of the tree. -/
@[ext] structure Tables (N : Type) where
  file : List N → Prop
  dir : List N → Prop
  link : List N → Prop
  /-- What is taken for removed, whatever the other tables say. -/
  hidden : List N → Prop
  /-- The names that have been entered for a directory. -/
  entered : List N → N → Prop

/-- There is something at a path. -/
def Live (t : Tables N) (p : List N) : Prop := ¬ t.hidden p ∧ (t.file p ∨ t.dir p ∨ t.link p)

/-- There is a directory at a path. -/
structure IsDir (t : Tables N) (p : List N) : Prop where
  dir : t.dir p
  shown : ¬ t.hidden p
  link : ¬ t.link p

/-- **The tables are in step.**  The directories of `X` may be missing. -/
structure Wf (t : Tables N) (X : List N → Prop) : Prop where
  shown : ∀ p, t.link p → ¬ t.hidden p
  /-- Links are in the table of directories too. -/
  link_dir : ∀ p, t.link p → t.dir p
  /-- Nothing else is both a file and a directory. -/
  file_dir : ∀ p, Live t p → t.file p → t.dir p → t.link p
  entered_iff : ∀ d n, t.entered d n ↔ Live t (d ++ [n])
  parent : ∀ d n, Live t (d ++ [n]) → (t.dir d ∨ X d) ∧ ¬ t.hidden d ∧ ¬ t.link d
  root : ¬ t.link [] ∧ (Live t [] → ¬ t.file [])
  /-- What has stayed in the table of directories has no link above it. -/
  stale : ∀ p a, t.dir p → t.hidden p → Above a p → ¬ t.link a

/-- No directory is missing. -/
abbrev Whole (t : Tables N) : Prop := Wf t fun _ => False

variable {t t' : Tables N} {X : List N → Prop}

/-- The missing directories have been made. -/
theorem Wf.whole (h : Wf t X) (hX : ∀ d, X d → t.dir d) : Whole t :=
  { h with
    parent := by
      intro d n hlive
      obtain ⟨hdir, hrest⟩ := h.parent d n hlive
      exact ⟨Or.inl (hdir.elim id (hX d)), hrest⟩ }

theorem Whole.wf (h : Whole t) (X : List N → Prop) : Wf t X :=
  { h with
    parent := by
      intro d n hlive
      obtain ⟨hdir, hrest⟩ := h.parent d n hlive
      exact ⟨Or.inl (hdir.resolve_right id), hrest⟩ }

theorem Wf.isDir (h : Whole t) {d : List N} {n : N} (hlive : Live t (d ++ [n])) : IsDir t d := by
  obtain ⟨hdir, hshown, hlink⟩ := h.parent d n hlive
  exact ⟨hdir.resolve_right id, hshown, hlink⟩

theorem IsDir.live {p : List N} (h : IsDir t p) : Live t p := ⟨h.shown, Or.inr (Or.inl h.dir)⟩

/-- **Above something that is there are directories.** -/
theorem Wf.above (h : Whole t) {a p : List N} (hp : Live t p) (ha : Above a p) : IsDir t a := by
  induction p using List.reverseRecOn with
  | nil => exact absurd ha (not_above_nil a)
  | append_singleton d n ih =>
      have hd := h.isDir hp
      rcases above_append_iff.1 ha with rfl | ha
      · exact hd
      · exact ih hd.live ha

/-! ### Files -/

/-- What is above a path may be, or become, directories. -/
def Clear (t : Tables N) (p : List N) : Prop := ∀ a, Above a p → ¬ t.hidden a ∧ ¬ t.link a ∧ ¬ t.file a

/-- A file is put at a path, with the directories above it. -/
def putFile (t : Tables N) (p : List N) : Tables N where
  file := fun q => q = p ∨ t.file q
  dir := fun q => Above q p ∨ t.dir q
  link := t.link
  hidden := fun q => q ≠ p ∧ t.hidden q
  entered := fun d n => t.entered d n ∨ d ++ [n] = p ∨ (Above (d ++ [n]) p ∧ ¬ t.dir (d ++ [n]))

theorem live_putFile {p : List N} (hclear : Clear t p) (q : List N) :
    Live (putFile t p) q ↔ q = p ∨ Above q p ∨ Live t q := by
  have hshown : Above q p → ¬ t.hidden q := fun h => (hclear q h).1
  simp only [Live, putFile]
  grind

/-- **A file may be put at a path that is no directory.** -/
theorem Wf.putFile (h : Wf t X) {p : List N} (hp : p ≠ []) (hclear : Clear t p) (hdir : t.dir p → t.link p) :
    Wf (putFile t p) X where
  shown := fun q hlink hhidden => h.shown q hlink hhidden.2
  link_dir := fun q hlink => Or.inr (h.link_dir q hlink)
  file_dir := by
    rintro q hlive hfile hqdir
    rcases hqdir with habove | hqdir
    · rcases hfile with rfl | hfile
      · exact absurd habove (not_above_self q)
      · exact absurd hfile (hclear q habove).2.2
    · by_cases hq : q = p
      · subst hq
        exact hdir hqdir
      · rcases (live_putFile hclear q).1 hlive with hq' | habove | hlive
        · exact absurd hq' hq
        · exact absurd (hfile.resolve_left hq) (hclear q habove).2.2
        · exact h.file_dir q hlive (hfile.resolve_left hq) hqdir
  entered_iff := by
    intro d n
    rw [live_putFile hclear, ← h.entered_iff]
    -- what is above the file and in the tables has its name already
    have hthere : Above (d ++ [n]) p → t.dir (d ++ [n]) → t.entered d n := fun habove hd =>
      (h.entered_iff d n).2 ⟨(hclear _ habove).1, Or.inr (Or.inl hd)⟩
    simp only [NameTree.putFile]
    grind
  parent := by
    intro d n hlive
    have hnew : Above d p → ((NameTree.putFile t p).dir d ∨ X d) ∧ ¬ (NameTree.putFile t p).hidden d ∧
        ¬ (NameTree.putFile t p).link d := by
      intro habove
      obtain ⟨hshown, hlink, -⟩ := hclear d habove
      exact ⟨Or.inl (Or.inl habove), fun hhidden => hshown hhidden.2, hlink⟩
    rcases (live_putFile hclear _).1 hlive with rfl | habove | hlive
    · exact hnew (above_append d n)
    · exact hnew habove.of_append
    · obtain ⟨hd, hshown, hlink⟩ := h.parent d n hlive
      exact ⟨hd.imp_left Or.inr, fun hhidden => hshown hhidden.2, hlink⟩
  root := by
    refine ⟨h.root.1, fun hlive hfile => ?_⟩
    rcases hfile with hnil | hfile
    · exact hp hnil.symm
    · rcases (live_putFile hclear _).1 hlive with hnil | habove | hlive
      · exact hp hnil.symm
      · exact (hclear _ habove).2.2 hfile
      · exact h.root.2 hlive hfile
  stale := by
    rintro q a hqdir ⟨-, hhidden⟩ ha
    rcases hqdir with habove | hqdir
    · exact absurd hhidden (hclear q habove).1
    · exact h.stale q a hqdir hhidden ha

/-- More files may be hidden. -/
theorem Wf.addHidden (h : Wf t X) {file : List N → Prop} (hmore : ∀ q, t.file q → file q)
    (hhidden : ∀ q, file q → t.file q ∨ t.hidden q) : Wf { t with file := file } X := by
  have hlive : ∀ q, Live { t with file := file } q ↔ Live t q := by
    intro q
    have hq := hmore q
    have hq' := hhidden q
    simp only [Live]
    grind
  refine ⟨h.shown, h.link_dir, ?_, ?_, ?_, ⟨h.root.1, ?_⟩, h.stale⟩
  · intro q hq hfile
    rw [hlive] at hq
    exact h.file_dir q hq ((hhidden q hfile).resolve_right hq.1)
  · intro d n
    rw [hlive]
    exact h.entered_iff d n
  · intro d n hq
    rw [hlive] at hq
    exact h.parent d n hq
  · intro hroot hfile
    rw [hlive] at hroot
    exact h.root.2 hroot ((hhidden [] hfile).resolve_right hroot.1)

/-! ### Directories -/

/-- A directory is made, with those above it. -/
def makeDir (t : Tables N) (p : List N) : Tables N where
  file := t.file
  dir := fun q => q = p ∨ Above q p ∨ t.dir q
  link := t.link
  hidden := fun q => q ≠ p ∧ t.hidden q
  entered := fun d n => t.entered d n ∨ (d ++ [n] = p ∨ Above (d ++ [n]) p) ∧ ¬ t.dir (d ++ [n])

theorem live_makeDir {p : List N} (hclear : Clear t p) (q : List N) :
    Live (makeDir t p) q ↔ q = p ∨ Above q p ∨ Live t q := by
  have hshown : Above q p → ¬ t.hidden q := fun h => (hclear q h).1
  simp only [Live, makeDir]
  grind

/-- **A directory may be made where there is no file, if the path is not still in the table.** -/
theorem Wf.makeDir (h : Wf t X) {p : List N} (hclear : Clear t p) (hfile : t.file p → t.link p)
    (hdir : t.dir p → ¬ t.hidden p) : Wf (makeDir t p) X where
  shown := fun q hlink hhidden => h.shown q hlink hhidden.2
  link_dir := fun q hlink => Or.inr (Or.inr (h.link_dir q hlink))
  file_dir := by
    rintro q ⟨hshown, -⟩ hqfile (rfl | habove | hqdir)
    · exact hfile hqfile
    · exact absurd hqfile (hclear q habove).2.2
    · by_cases hq : q = p
      · subst hq
        exact hfile hqfile
      · exact h.file_dir q ⟨fun hhidden => hshown ⟨hq, hhidden⟩, Or.inl hqfile⟩ hqfile hqdir
  entered_iff := by
    intro d n
    rw [live_makeDir hclear, ← h.entered_iff]
    have hthere : Above (d ++ [n]) p → t.dir (d ++ [n]) → t.entered d n := fun habove hd =>
      (h.entered_iff d n).2 ⟨(hclear _ habove).1, Or.inr (Or.inl hd)⟩
    have hself : d ++ [n] = p → t.dir (d ++ [n]) → t.entered d n := by
      rintro rfl hd
      exact (h.entered_iff d n).2 ⟨hdir hd, Or.inr (Or.inl hd)⟩
    simp only [NameTree.makeDir]
    grind
  parent := by
    intro d n hlive
    have hnew : Above d p → ((NameTree.makeDir t p).dir d ∨ X d) ∧ ¬ (NameTree.makeDir t p).hidden d ∧
        ¬ (NameTree.makeDir t p).link d := by
      intro habove
      obtain ⟨hshown, hlink, -⟩ := hclear d habove
      exact ⟨Or.inl (Or.inr (Or.inl habove)), fun hhidden => hshown hhidden.2, hlink⟩
    rcases (live_makeDir hclear _).1 hlive with rfl | habove | hlive
    · exact hnew (above_append d n)
    · exact hnew habove.of_append
    · obtain ⟨hd, hshown, hlink⟩ := h.parent d n hlive
      exact ⟨hd.imp_left fun hd => Or.inr (Or.inr hd), fun hhidden => hshown hhidden.2, hlink⟩
  root := by
    refine ⟨h.root.1, fun hlive hroot => ?_⟩
    rcases (live_makeDir hclear _).1 hlive with rfl | habove | hlive
    · exact h.root.1 (hfile hroot)
    · exact (hclear _ habove).2.2 hroot
    · exact h.root.2 hlive hroot
  stale := by
    rintro q a hqdir ⟨hne, hhidden⟩ ha
    rcases hqdir with rfl | habove | hqdir
    · exact absurd rfl hne
    · exact absurd hhidden (hclear q habove).1
    · exact h.stale q a hqdir hhidden ha

/-- A directory is entered, and those above it are not looked at. -/
def enterDir (t : Tables N) (p : List N) : Tables N where
  file := t.file
  dir := fun q => q = p ∨ t.dir q
  link := t.link
  hidden := t.hidden
  entered := fun d n => t.entered d n ∨ d ++ [n] = p ∧ ¬ t.dir p

/-- What lies in a directory that is made or promised. -/
def Placed (t : Tables N) (X : List N → Prop) (p : List N) : Prop :=
  ∀ d n, p = d ++ [n] → (t.dir d ∨ X d) ∧ ¬ t.hidden d ∧ ¬ t.link d

theorem live_enterDir {p : List N} (hshown : ¬ t.hidden p) (q : List N) :
    Live (enterDir t p) q ↔ q = p ∨ Live t q := by
  have hq : q = p → ¬ t.hidden q := fun h => h ▸ hshown
  simp only [Live, enterDir]
  grind

/-- **A directory that is entered alone lies in one.** -/
theorem Wf.enterDir (h : Wf t X) {p : List N} (hnew : ¬ t.dir p) (hshown : ¬ t.hidden p) (hfile : ¬ t.file p)
    (hplaced : Placed t X p) : Wf (enterDir t p) X where
  shown := h.shown
  link_dir := fun q hlink => Or.inr (h.link_dir q hlink)
  file_dir := by
    rintro q hlive hqfile (rfl | hqdir)
    · exact absurd hqfile hfile
    · exact h.file_dir q ⟨hlive.1, Or.inl hqfile⟩ hqfile hqdir
  entered_iff := by
    intro d n
    rw [live_enterDir hshown, ← h.entered_iff]
    simp only [NameTree.enterDir]
    grind
  parent := by
    intro d n hlive
    have hmono : (t.dir d ∨ X d) ∧ ¬ t.hidden d ∧ ¬ t.link d →
        ((NameTree.enterDir t p).dir d ∨ X d) ∧ ¬ t.hidden d ∧ ¬ t.link d :=
      fun hd => ⟨hd.1.imp_left Or.inr, hd.2⟩
    rcases (live_enterDir hshown _).1 hlive with heq | hlive
    · exact hmono (hplaced d n heq.symm)
    · exact hmono (h.parent d n hlive)
  root := by
    refine ⟨h.root.1, fun hlive hroot => ?_⟩
    rcases (live_enterDir hshown _).1 hlive with rfl | hlive
    · exact hfile hroot
    · exact h.root.2 hlive hroot
  stale := by
    rintro q a (rfl | hqdir) hhidden ha
    · exact absurd hhidden hshown
    · exact h.stale q a hqdir hhidden ha

/-! ### Links -/

/-- A link is put at a path. -/
def putLink (t : Tables N) (p : List N) : Tables N where
  file := t.file
  dir := fun q => q = p ∨ t.dir q
  link := fun q => q = p ∨ t.link q
  hidden := fun q => q ≠ p ∧ t.hidden q
  entered := fun d n => t.entered d n ∨ d ++ [n] = p

/-- There is nothing below a path. -/
def Bare (t : Tables N) (p : List N) : Prop := ∀ q, Above p q → ¬ Live t q ∧ ¬ t.dir q

theorem live_putLink (t : Tables N) (p q : List N) : Live (putLink t p) q ↔ q = p ∨ Live t q := by
  simp only [Live, putLink]
  grind

/-- **A link may be put where there is nothing below it.** -/
theorem Wf.putLink (h : Wf t X) {p : List N} (hp : p ≠ []) (hplaced : Placed t X p) (hbare : Bare t p) :
    Wf (putLink t p) X where
  shown := by
    rintro q (rfl | hlink) ⟨hne, hhidden⟩
    · exact hne rfl
    · exact h.shown q hlink hhidden
  link_dir := fun q hlink => hlink.imp_right (h.link_dir q)
  file_dir := by
    rintro q hlive hqfile hqdir
    rcases hqdir with hq | hqdir
    · exact Or.inl hq
    · rcases (live_putLink t p q).1 hlive with hq | hlive
      · exact Or.inl hq
      · exact Or.inr (h.file_dir q hlive hqfile hqdir)
  entered_iff := by
    intro d n
    rw [live_putLink, ← h.entered_iff]
    simp only [NameTree.putLink]
    grind
  parent := by
    intro d n hlive
    have hmono : d ≠ p → (t.dir d ∨ X d) ∧ ¬ t.hidden d ∧ ¬ t.link d →
        ((NameTree.putLink t p).dir d ∨ X d) ∧ ¬ (NameTree.putLink t p).hidden d ∧
          ¬ (NameTree.putLink t p).link d :=
      fun hne ⟨hd, hshown, hlink⟩ =>
        ⟨hd.imp_left Or.inr, fun hhidden => hshown hhidden.2, fun hl => hlink (hl.resolve_left hne)⟩
    rcases (live_putLink t p _).1 hlive with heq | hold
    · refine hmono ?_ (hplaced d n heq.symm)
      rintro rfl
      exact append_ne_self d n heq
    · refine hmono ?_ (h.parent d n hold)
      rintro rfl
      exact (hbare _ (above_append d n)).1 hold
  root := by
    refine ⟨?_, fun hlive hroot => ?_⟩
    · rintro (hnil | hlink)
      · exact hp hnil.symm
      · exact h.root.1 hlink
    · rcases (live_putLink t p _).1 hlive with hnil | hlive
      · exact hp hnil.symm
      · exact h.root.2 hlive hroot
  stale := by
    rintro q a hqdir ⟨hne, hhidden⟩ ha hlink
    have hqdir' : t.dir q := hqdir.resolve_left hne
    rcases hlink with rfl | hlink
    · exact (hbare q ha).2 hqdir'
    · exact h.stale q a hqdir' hhidden ha hlink

/-! ### Removing -/

/-- A file or a link is removed. -/
def remove (t : Tables N) (p : List N) : Tables N where
  file := fun q => q ≠ p ∧ t.file q
  dir := t.dir
  link := fun q => q ≠ p ∧ t.link q
  hidden := fun q => q = p ∨ t.hidden q
  entered := fun d n => t.entered d n ∧ d ++ [n] ≠ p

/-- A directory is removed. -/
def removeDir (t : Tables N) (p : List N) : Tables N where
  file := t.file
  dir := fun q => q ≠ p ∧ t.dir q
  link := t.link
  hidden := fun q => q = p ∨ t.hidden q
  entered := fun d n => d ≠ p ∧ t.entered d n ∧ d ++ [n] ≠ p

/-- There is nothing in a directory. -/
def Childless (t : Tables N) (p : List N) : Prop := ∀ n, ¬ Live t (p ++ [n])

theorem live_remove (t : Tables N) (p q : List N) : Live (remove t p) q ↔ q ≠ p ∧ Live t q := by
  simp only [Live, remove]
  grind

theorem live_removeDir (t : Tables N) (p q : List N) : Live (removeDir t p) q ↔ q ≠ p ∧ Live t q := by
  simp only [Live, removeDir]
  grind

/-- **What has nothing in it may be removed.** -/
theorem Wf.remove (h : Whole t) {p : List N} (hempty : Childless t p) : Whole (remove t p) where
  shown := by
    rintro q ⟨hne, hlink⟩ (hq | hhidden)
    · exact hne hq
    · exact h.shown q hlink hhidden
  link_dir := fun q hlink => h.link_dir q hlink.2
  file_dir := by
    intro q hlive hqfile hqdir
    obtain ⟨hne, hlive⟩ := (live_remove t p q).1 hlive
    exact ⟨hne, h.file_dir q hlive hqfile.2 hqdir⟩
  entered_iff := by
    intro d n
    rw [live_remove, ← h.entered_iff]
    simp only [NameTree.remove]
    grind
  parent := by
    intro d n hlive
    obtain ⟨-, hold⟩ := (live_remove t p _).1 hlive
    obtain ⟨hd, hshown, hlink⟩ := h.parent d n hold
    refine ⟨hd, ?_, fun hl => hlink hl.2⟩
    rintro (rfl | hhidden)
    · exact hempty n hold
    · exact hshown hhidden
  root := ⟨fun hlink => h.root.1 hlink.2, fun hlive hroot => h.root.2 ((live_remove t p _).1 hlive).2 hroot.2⟩
  stale := by
    rintro q a hqdir hhidden ha ⟨-, hlink⟩
    by_cases hq : t.hidden q
    · exact h.stale q a hqdir hq ha hlink
    · have hlive : Live t q := ⟨hq, Or.inr (Or.inl hqdir)⟩
      exact (h.above hlive ha).link hlink

/-- **A directory with nothing in it, but no link, may be removed.** -/
theorem Wf.removeDir (h : Whole t) {p : List N} (hlink : ¬ t.link p) (hempty : Childless t p) :
    Whole (removeDir t p) where
  shown := by
    rintro q hqlink (rfl | hhidden)
    · exact hlink hqlink
    · exact h.shown q hqlink hhidden
  link_dir := by
    intro q hqlink
    refine ⟨?_, h.link_dir q hqlink⟩
    rintro rfl
    exact hlink hqlink
  file_dir := fun q hlive hqfile hqdir => h.file_dir q ((live_removeDir t p q).1 hlive).2 hqfile hqdir.2
  entered_iff := by
    intro d n
    rw [live_removeDir, ← h.entered_iff]
    have hne : t.entered d n → d ≠ p := by
      rintro hd rfl
      exact hempty n ((h.entered_iff d n).1 hd)
    simp only [NameTree.removeDir]
    grind
  parent := by
    intro d n hlive
    obtain ⟨-, hold⟩ := (live_removeDir t p _).1 hlive
    obtain ⟨hd, hshown, hdlink⟩ := h.parent d n hold
    have hne : d ≠ p := by
      rintro rfl
      exact hempty n hold
    exact ⟨hd.imp_left fun hd => ⟨hne, hd⟩, fun hhidden => hshown (hhidden.resolve_left hne), hdlink⟩
  root := ⟨h.root.1, fun hlive hroot => h.root.2 ((live_removeDir t p _).1 hlive).2 hroot⟩
  stale := by
    rintro q a ⟨hne, hqdir⟩ hhidden ha
    exact h.stale q a hqdir (hhidden.resolve_left hne) ha

/-! ### Moving -/

/-- What is at one path goes to another, and what is below the first one stays where it is. -/
def move (t : Tables N) (s u : List N) : Tables N where
  file := fun q => q ≠ s ∧ t.file q ∨ q = u ∧ t.file s
  dir := fun q => q ≠ s ∧ t.dir q ∨ q = u ∧ t.dir s ∨ Above q u
  link := fun q => q ≠ s ∧ t.link q ∨ q = u ∧ t.link s
  hidden := fun q => q ≠ u ∧ (q = s ∨ t.hidden q)
  entered := fun d n =>
    t.entered d n ∧ d ++ [n] ≠ s ∨ d ++ [n] = u ∨ (Above (d ++ [n]) u ∧ ¬ t.dir (d ++ [n]))

/-- There is something in the tables for a path, be it hidden or not. -/
def Kept (t : Tables N) (p : List N) : Prop := t.file p ∨ t.dir p ∨ t.link p

/-- What it takes to go from one path to another. -/
structure Movable (t : Tables N) (s u : List N) : Prop where
  ne : s ≠ u
  target : u ≠ []
  kept : Kept t s ∨ Kept t u
  clear : Clear t u
  /-- Nothing goes below itself. -/
  notAbove : ¬ Above s u
  /-- What was at the target stays in the tables, and must go with what comes. -/
  kinds : t.file s ∨ t.file u → t.dir s ∨ t.dir u → t.link s ∨ t.link u
  source : Childless t s
  emptied : t.dir s → ∀ n, Live t (u ++ [n]) → u ++ [n] = s
  bare : t.link s → ∀ q, Above u q → ¬ t.dir q

theorem live_move {s u : List N} (hm : Movable t s u) (q : List N) :
    Live (move t s u) q ↔ q = u ∨ Above q u ∨ q ≠ s ∧ Live t q := by
  have hclear := hm.clear q
  by_cases hu : q = u
  · subst hu
    have hne := hm.ne
    have hkept := hm.kept
    simp only [Kept] at hkept
    simp only [Live, move]
    grind
  · by_cases hs : q = s
    · subst hs
      have hnot := hm.notAbove
      simp only [Live, move]
      grind
    · simp only [Live, move]
      grind

/-- **A move that takes nothing away from below it and brings nothing over what is there.** -/
theorem Wf.move (h : Whole t) {s u : List N} (hm : Movable t s u) : Whole (move t s u) where
  shown := by
    rintro q (⟨hqs, hlink⟩ | ⟨hqu, -⟩) ⟨hne, hhidden⟩
    · exact h.shown q hlink (hhidden.resolve_left hqs)
    · exact hne hqu
  link_dir := by
    rintro q (⟨hqs, hlink⟩ | ⟨hqu, hlink⟩)
    · exact Or.inl ⟨hqs, h.link_dir q hlink⟩
    · exact Or.inr (Or.inl ⟨hqu, h.link_dir s hlink⟩)
  file_dir := by
    intro q hlive hqfile hqdir
    by_cases hqu : q = u
    · subst hqu
      have hkinds := hm.kinds
      have hnot := not_above_self q
      have hne := hm.ne.symm
      simp only [NameTree.move] at hqfile hqdir ⊢
      grind
    · have hold : q ≠ s ∧ t.file q := hqfile.resolve_right fun hq => hqu hq.1
      rcases (live_move hm q).1 hlive with hq | habove | ⟨-, hlive⟩
      · exact absurd hq hqu
      · exact absurd hold.2 (hm.clear q habove).2.2
      · rcases hqdir with ⟨-, hqdir⟩ | ⟨hq, -⟩ | habove
        · exact Or.inl ⟨hold.1, h.file_dir q hlive hold.2 hqdir⟩
        · exact absurd hq hqu
        · exact absurd hold.2 (hm.clear q habove).2.2
  entered_iff := by
    intro d n
    rw [live_move hm, ← h.entered_iff]
    -- what is above the goal is in the tables already or is entered by the move
    have hthere : Above (d ++ [n]) u → t.dir (d ++ [n]) → t.entered d n := fun habove hd =>
      (h.entered_iff d n).2 ⟨(hm.clear _ habove).1, Or.inr (Or.inl hd)⟩
    have hne : Above (d ++ [n]) u → d ++ [n] ≠ s := by
      rintro habove rfl
      exact hm.notAbove habove
    simp only [NameTree.move]
    grind
  parent := by
    intro d n hlive
    -- above the goal there is a directory after the move
    have hnew : Above d u → ((NameTree.move t s u).dir d ∨ False) ∧ ¬ (NameTree.move t s u).hidden d ∧
        ¬ (NameTree.move t s u).link d := by
      intro habove
      obtain ⟨hshown, hlink, -⟩ := hm.clear d habove
      have hds : d ≠ s := by
        rintro rfl
        exact hm.notAbove habove
      refine ⟨Or.inl (Or.inr (Or.inr habove)), ?_, ?_⟩
      · rintro ⟨-, hd | hhidden⟩
        · exact hds hd
        · exact hshown hhidden
      · rintro (⟨-, hl⟩ | ⟨hdu, -⟩)
        · exact hlink hl
        · exact habove.2 hdu
    rcases (live_move hm _).1 hlive with rfl | habove | ⟨hne, hold⟩
    · exact hnew (above_append d n)
    · exact hnew habove.of_append
    · have hd := h.isDir hold
      have hds : d ≠ s := by
        rintro rfl
        exact hm.source n hold
      refine ⟨Or.inl (Or.inl ⟨hds, hd.dir⟩), ?_, ?_⟩
      · rintro ⟨-, hd' | hhidden⟩
        · exact hds hd'
        · exact hd.shown hhidden
      · rintro (⟨-, hl⟩ | ⟨rfl, hl⟩)
        · exact hd.link hl
        · exact hne (hm.emptied (h.link_dir s hl) n hold)
  root := by
    have hroot : ∀ {P : Prop}, ¬ (([] : List N) = u ∧ P) := fun hu => hm.target hu.1.symm
    refine ⟨fun hlink => h.root.1 (hlink.resolve_right hroot).2, fun hlive hfile => ?_⟩
    have hold := (hfile.resolve_right hroot).2
    rcases (live_move hm _).1 hlive with hu | habove | ⟨-, hlive⟩
    · exact hm.target hu.symm
    · exact (hm.clear _ habove).2.2 hold
    · exact h.root.2 hlive hold
  stale := by
    rintro q a hqdir ⟨hqu, hhidden⟩ ha
    -- a path that is a directory and hidden was both before
    have hold : t.dir q ∧ t.hidden q := by
      rcases hqdir with ⟨hqs, hqdir⟩ | ⟨hq, -⟩ | habove
      · exact ⟨hqdir, hhidden.resolve_left hqs⟩
      · exact absurd hq hqu
      · rcases hhidden with rfl | hhidden
        · exact absurd habove hm.notAbove
        · exact absurd hhidden (hm.clear q habove).1
    rintro (⟨-, hl⟩ | ⟨rfl, hl⟩)
    · exact h.stale q a hold.1 hold.2 ha hl
    · exact hm.bare hl q ha hold.1

/-! ### Walking along links -/

/-- The first link on the way down from `before`, and what is left of the way. -/
def cut (target : List N → Option (List N)) : List N → List N → Option (List N × List N)
  | _, [] => none
  | before, n :: rest =>
    match target (before ++ [n]) with
    | some goal => some (goal, rest)
    | none => cut target (before ++ [n]) rest

/-- Following links, at most as many as there is fuel for. -/
def resolve (target : List N → Option (List N)) : ℕ → List N → List N
  | 0, p => p
  | fuel + 1, p =>
    match cut target [] p with
    | none => p
    | some (goal, rest) => resolve target fuel (goal ++ rest)

variable {target : List N → Option (List N)}

/-- The way down in two parts. -/
theorem cut_append (before p rest : List N) :
    cut target before (p ++ rest) =
      match cut target before p with
      | some (goal, r) => some (goal, r ++ rest)
      | none => cut target (before ++ p) rest := by
  induction p generalizing before with
  | nil => rw [List.nil_append, List.append_nil]; rfl
  | cons n p ih =>
      rw [List.cons_append, cut, cut]
      cases target (before ++ [n]) with
      | some goal => rfl
      | none =>
          have happend : before ++ n :: p = before ++ [n] ++ p := by simp
          dsimp only
          rw [ih, happend]

theorem cut_eq_none {before p : List N} (h : ∀ a, a ≠ [] → a <+: p → target (before ++ a) = none) :
    cut target before p = none := by
  induction p generalizing before with
  | nil => rfl
  | cons n p ih =>
      rw [cut, h [n] (List.cons_ne_nil _ _) (by simp)]
      refine ih fun a _ ha => ?_
      rw [List.append_assoc, List.singleton_append]
      exact h (n :: a) (List.cons_ne_nil _ _) ((List.prefix_cons_inj n).2 ha)

/-- Where there is no link there is nothing to follow. -/
theorem resolve_of_none {p : List N} (h : ∀ a, a <+: p → target a = none) (fuel : ℕ) :
    resolve target fuel p = p := by
  cases fuel with
  | zero => rfl
  | succ fuel =>
      have hcut : cut target [] p = none := cut_eq_none fun a _ ha => h a ha
      rw [resolve, hcut]

/-- A directory leads to itself. -/
theorem Wf.resolve_isDir (h : Whole t) (hlinks : ∀ p, ¬ t.link p → target p = none) {p : List N}
    (hp : IsDir t p) (fuel : ℕ) : resolve target fuel p = p := by
  refine resolve_of_none (fun a ha => hlinks a ?_) fuel
  by_cases hap : a = p
  · rw [hap]
    exact hp.link
  · exact (h.above hp.live ⟨ha, hap⟩).link

/-- **Where a path leads to something, its directory leads to a directory.** -/
theorem Wf.resolve_parent (h : Whole t) (hlinks : ∀ p, ¬ t.link p → target p = none) (fuel : ℕ) (d : List N)
    (n : N) (hlive : Live t (resolve target fuel (d ++ [n]))) : IsDir t (resolve target fuel d) := by
  induction fuel generalizing d with
  | zero => exact h.isDir hlive
  | succ fuel ih =>
      rw [resolve] at hlive ⊢
      rw [cut_append] at hlive
      cases hcut : cut target [] d with
      | some r =>
          obtain ⟨goal, rest⟩ := r
          rw [hcut] at hlive
          dsimp only at hlive ⊢
          rw [← List.append_assoc] at hlive
          exact ih (goal ++ rest) hlive
      | none =>
          rw [hcut, List.nil_append] at hlive
          dsimp only at hlive ⊢
          cases htarget : target (d ++ [n]) with
          | some goal =>
              -- the path is a link itself, and stands in a directory
              have hlink : t.link (d ++ [n]) := by
                by_contra hno
                rw [hlinks _ hno] at htarget
                cases htarget
              exact h.isDir ⟨h.shown _ hlink, Or.inr (Or.inr hlink)⟩
          | none =>
              have hend : cut target d [n] = none := by
                rw [cut, htarget]
                rfl
              rw [hend] at hlive
              exact h.isDir hlive

end NameTree
