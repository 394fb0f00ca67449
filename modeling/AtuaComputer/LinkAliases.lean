/-
**A new link under its other names.**

A name in a directory has many spellings: through links to the directory or above it, with `.` and `..`, with more
slashes.  `symlinkat` stores the link under the normal form of the path that it is given, and follows no link in it.
`readlink` looks for the path as it is and for its normal form, `lstat` for the path as it is only, and `open` follows
the links from the first on.  So through a link in its parents a new link is not found in its directory, and however
it was made, some spelling of its name with more slashes is none for `lstat`.

Main definitions:

* `LinkAliases.Names` — a path is a spelling of a name in a directory;
* `LinkAliases.linked`, `LinkAliases.readlink` — what `symlinkat` leaves and what `readlink` finds;
* `LinkAliases.Law` — the calls agree on every spelling of the name.

Main results:

* `LinkAliases.returns_symlinkat`, `LinkAliases.sysReadlink_eq` — what the handlers do;
* `LinkAliases.readlink_iff`, `LinkAliases.lstat_iff` — which spellings the two calls know;
* `LinkAliases.not_aliased` — **no link is known under all its names**.
-/

import AtuaComputer.LinkNames
import AtuaComputer.FileOutcomes
import AtuaComputer.PosixPaths

set_option relaxedAutoImplicit false
set_option autoImplicit false

namespace LinkAliases

open VirtualFs PathWalk PosixPaths RenameLaw Kernel Syscalls FileIo Outcomes FileOutcomes

/-! ### Names -/

/-- The path ends with the name `n`, and what stands before it leads to the directory `e`. -/
structure Names (symlinks : JsMap Path Path) (path : Path) (e : List Component) (n : Component) : Prop where
  last : (path.splitOn '/').getLast? = some n.val
  parent : ∃ k, Walks (link symlinks) [] (partsOf path).dropLast k e

/-- The files after `symlinkat`. -/
def linked (v : Vfs) (text path : Path) : Vfs := createSymlink v text (absolute path)

/-- What `readlink` finds, before it is cut off to the size of the buffer. -/
def readlink (v : Vfs) (path : Path) : Option Path :=
  if absolute path = exePath then some "/bin/bash".toList else linkTarget v (absolute path)

/-- What `lstat` reports is a link of the size. -/
def IsLink (v : Vfs) (path : Path) (size : ℕ) : Prop :=
  ∃ info, VirtualFs.stat v path false = some info ∧ info.type = .symlink ∧ info.size = size

/-- After a link was made with a text, the calls agree on every spelling of its name: `readlink` finds the text,
`lstat` reports a link with the number of its bytes, and `open` gets to where the text leads from the directory of
the link, unless there are more links than may be followed. -/
structure Law (v : Vfs) (path text : Path) (e : List Component) (n : Component) : Prop where
  readlink : ∀ q, Names v.symlinks q e n → LinkAliases.readlink (linked v text path) q = some text
  lstat : ∀ q, Names v.symlinks q e n → IsLink (linked v text path) q (encode text).length
  opens : ∀ q, Names v.symlinks q e n → ∀ k place,
    Walks (link (linked v text path).symlinks) (if text.head? = some '/' then [] else e) (partsOf text) k place →
      k < 40 → resolvePath (linked v text path).symlinks (absolute q) = pathOf place

/-! ### The handlers

They take the paths as the kernel has read them. -/

section Handlers

variable {s : FileIo.State} {p : Proc} {path text : Path}

/-- The handler of `symlinkat` leaves the link. -/
theorem returns_symlinkat : Returns (sysSymlinkat p text atFdcwd path) s 0
    (withVfs s (linked s.kernel.vfs (readCString p text) (readCString p path))) := by
  unfold sysSymlinkat atPath
  rw [if_neg (by simp)]
  exact returns_onVfs rfl

/-- The handler of `readlink` stores what it finds. -/
theorem sysReadlink_eq (pid : ℤ) (b c : Int32) :
    (sysReadlink pid p path b c).run.run s =
      (match readlink s.kernel.vfs (readCString p path) with
        | none => (return -22 : Io ℤ)
        | some target => storeLink pid p b c target).run.run s := by
  unfold sysReadlink readlink
  by_cases hexe : absolute (readCString p path) = exePath
  · rw [if_pos hexe, if_pos hexe]
  · rw [if_neg hexe, if_neg hexe]
    rfl

end Handlers

/-! ### What the calls know -/

section Calls

variable {v : Vfs} {path text q : Path}

theorem get?_linked (v : Vfs) (text path x : Path) : (linked v text path).symlinks.get? x =
    if x = normalizePath path then some text else v.symlinks.get? x := by
  have hset : (linked v text path).symlinks = v.symlinks.set (normalizePath path) text := by
    unfold linked createSymlink setLink addChild
    rw [normalizePath_absolute]
  rw [hset, JsMap.get?_set]

/-- Of a path that is a link `readlink` finds the text, of another that of its normal form. -/
theorem linkTarget_iff {v : Vfs} (htext : text ≠ []) : linkTarget v q = some text ↔
    v.symlinks.get? q = some text ∨ Untold v.symlinks q ∧ v.symlinks.get? (normalizePath q) = some text := by
  obtain ⟨c, cs, rfl⟩ := List.exists_cons_of_ne_nil htext
  unfold linkTarget Untold
  cases hraw : v.symlinks.get? q with
  | none =>
      cases hnorm : v.symlinks.get? (normalizePath q) with
      | none => simp
      | some found => cases found <;> simp
  | some found =>
      cases found with
      | nil =>
          cases hnorm : v.symlinks.get? (normalizePath q) with
          | none => simp
          | some found => cases found <;> simp
      | cons d ds => simp

/-- **Which spellings `readlink` knows.** -/
theorem readlink_iff (hexe : absolute q ≠ exePath) : readlink (linked v text path) q = some text ↔
    text ≠ [] ∧ (absolute q = normalizePath path ∨ absolute q ≠ normalizePath path ∧
      (v.symlinks.get? (absolute q) = some text ∨ Untold v.symlinks (absolute q) ∧
        (normalizePath q = normalizePath path ∨ v.symlinks.get? (normalizePath q) = some text))) := by
  unfold readlink
  rw [if_neg hexe]
  by_cases htext : text = []
  · have hnone : linkTarget (linked v text path) (absolute q) ≠ some [] := by
      unfold linkTarget
      split
      · simp
      · split <;> simp
    subst htext
    exact iff_of_false hnone fun h => h.1 rfl
  rw [linkTarget_iff htext, and_iff_right htext, normalizePath_absolute]
  unfold Untold
  rw [get?_linked, get?_linked]
  by_cases hsame : absolute q = normalizePath path
  · simp [hsame]
  · simp only [hsame, false_or, not_false_eq_true, ne_eq, true_and]
    by_cases hnorm : normalizePath q = normalizePath path
    · simp [hnorm]
    · simp [hnorm]

/-- **Which spellings `lstat` knows.** -/
theorem isLink_iff {size : ℕ} : IsLink v q size ↔
    ¬ isDevice (absolute q) ∧ ∃ text, v.symlinks.get? (absolute q) = some text ∧ utf16Length text = size := by
  have hresolved : ∀ info, statResolved v (absolute q) (resolvePath v.symlinks (absolute q)) = some info →
      info.type ≠ .symlink := by
    intro info h
    unfold statResolved at h
    dsimp only at h
    split at h
    · cases h
    · split at h
      · cases h
        simp
      · split_ifs at h
        · cases h
          simp
        · cases h
          simp
  unfold IsLink VirtualFs.stat
  dsimp only
  by_cases hdev : isDevice (absolute q)
  · rw [if_pos hdev]
    refine iff_of_false ?_ fun h => h.1 hdev
    rintro ⟨info, h, htype, -⟩
    cases h
    cases htype
  rw [if_neg hdev, and_iff_right hdev]
  cases hget : v.symlinks.get? (absolute q) with
  | none =>
      refine iff_of_false ?_ (by simp)
      rintro ⟨info, h, htype, -⟩
      exact hresolved info h htype
  | some text =>
      dsimp only
      rw [if_neg Bool.false_ne_true]
      constructor
      · rintro ⟨info, h, -, hsize⟩
        cases h
        exact ⟨text, rfl, hsize⟩
      · rintro ⟨text', h, hsize⟩
        cases h
        exact ⟨_, rfl, rfl, hsize⟩

/-- **Which spellings `lstat` knows, after the link was made.** -/
theorem lstat_iff : IsLink (linked v text path) q (encode text).length ↔
    ¬ isDevice (absolute q) ∧
      if absolute q = normalizePath path then utf16Length text = (encode text).length
      else ∃ text', v.symlinks.get? (absolute q) = some text' ∧ utf16Length text' = (encode text).length := by
  rw [isLink_iff, get?_linked]
  split_ifs with hsame
  · simp
  · rfl

end Calls

/-! ### More slashes -/

section Slashes

variable {v : Vfs} {path q : Path} {e : List Component} {n : Component}

/-- One more slash in front changes nothing. -/
theorem Names.cons {symlinks : JsMap Path Path} (h : Names symlinks q e n) : Names symlinks ('/' :: q) e n := by
  have hsplit : ('/' :: q).splitOn '/' = [] :: q.splitOn '/' := List.splitOn_append_cons_self [] q
  have hparts : partsOf ('/' :: q) = partsOf q := partsOf_append [] q
  refine ⟨?_, by rw [hparts]; exact h.parent⟩
  rw [hsplit, List.getLast?_cons, h.last]
  rfl

theorem Names.slashes {symlinks : JsMap Path Path} (h : Names symlinks q e n) (k : ℕ) :
    Names symlinks (List.replicate k '/' ++ q) e n := by
  induction k with
  | zero => exact h
  | succ k ih =>
      rw [List.replicate_succ, List.cons_append]
      exact ih.cons

/-- With enough slashes a path is not stored anywhere. -/
theorem exists_slashes {V : Type} (m : JsMap Path V) (q : Path) :
    ∃ k, 0 < k ∧ m.get? (List.replicate k '/' ++ q) = none := by
  have hall (keys : List Path) : ∃ bound, ∀ key ∈ keys, key.length ≤ bound := by
    induction keys with
    | nil => exact ⟨0, nofun⟩
    | cons key keys ih =>
        obtain ⟨bound, hbound⟩ := ih
        refine ⟨max key.length bound, fun key' hkey => ?_⟩
        rcases List.mem_cons.1 hkey with rfl | hkey
        · exact Nat.le_max_left _ _
        · exact Nat.le_trans (hbound key' hkey) (Nat.le_max_right _ _)
  obtain ⟨bound, hbound⟩ := hall m.keys
  refine ⟨bound + 1, Nat.succ_pos _, ?_⟩
  rw [← JsMap.has_eq_false_iff, Bool.eq_false_iff]
  intro hhas
  have hlen := hbound _ (JsMap.mem_keys.2 hhas)
  rw [List.length_append, List.length_replicate] at hlen
  omega

/-- **No link is known under all its names.** -/
theorem not_aliased (hpath : Names v.symlinks path e n) (text : Path) : ¬ Law v path text e n := by
  intro hlaw
  obtain ⟨k, hpos, hnone⟩ := exists_slashes (linked v text path).symlinks path
  have hlink := (isLink_iff.1 (hlaw.lstat _ (hpath.slashes k))).2
  have habsolute : absolute (List.replicate k '/' ++ path) = List.replicate k '/' ++ path := by
    refine if_pos ?_
    rw [← Nat.succ_pred_eq_of_pos hpos, List.replicate_succ]
    rfl
  rw [habsolute, hnone] at hlink
  obtain ⟨text', hget, -⟩ := hlink
  cases hget

end Slashes

/-! ### A link to the directory -/

/-- A directory, and a link to it. -/
def withAlias : Vfs := createSymlink (mkdir newVfs "/d".toList) "/d".toList "/a".toList

/-- The directory, and the name of the new link. -/
def dirD : List Component := [⟨"d".toList, by decide⟩]

def nameL : Component := ⟨"l".toList, by decide⟩

theorem names_withAlias : Names withAlias.symlinks "/a/l".toList dirD nameL := by
  refine ⟨by decide +kernel, 1, ?_⟩
  have hparts : (partsOf "/a/l".toList).dropLast = [.name ⟨"a".toList, by decide⟩] := by decide +kernel
  rw [hparts]
  refine .follow (l := ⟨true, [.name ⟨"d".toList, by decide⟩]⟩) (by decide +kernel) ?_
  exact .name (by decide +kernel) (.done _)

theorem not_aliased_withAlias : ¬ Law withAlias "/a/l".toList "/t".toList dirD nameL := not_aliased names_withAlias _

/-- **A link that was made through another is not found in its directory.** -/
theorem not_aliased_through : ¬ ∀ (v : Vfs) (path text : Path) (e : List Component) (n : Component),
    Names v.symlinks path e n → objectAt v (e ++ [n]) = none → Law v path text e n := by
  intro hall
  have hfresh : objectAt withAlias (dirD ++ [nameL]) = none := by decide +kernel
  have hlaw := hall withAlias "/a/l".toList "/t".toList dirD nameL names_withAlias hfresh
  have hdirect : Names withAlias.symlinks "/d/l".toList dirD nameL := by
    refine ⟨by decide +kernel, 0, ?_⟩
    have hparts : (partsOf "/d/l".toList).dropLast = [.name ⟨"d".toList, by decide⟩] := by decide +kernel
    rw [hparts]
    exact .name (by decide +kernel) (.done _)
  have hnone : readlink (linked withAlias "/t".toList "/a/l".toList) "/d/l".toList = none := by decide +kernel
  have hread := hlaw.readlink _ hdirect
  rw [hnone] at hread
  cases hread

end LinkAliases
