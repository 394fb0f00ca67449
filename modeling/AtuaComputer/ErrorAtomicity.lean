/-
**What a syscall has done when it fails.**

`ErrorConditions` has the condition under which a failing call has done nothing, and the calls that read.  This module
goes through the calls that write and those on descriptors, and puts the cases of the `switch` together.  What tells
whether writes have left anything behind is the position and the length of the file; what tells whether a descriptor
was made is its entry, which is a new object.

Main definitions:

* `ErrorAtomicity.Writing` — the state between the entries of a `writev`;
* `ErrorAtomicity.ErrorAtomic` — a call that fails leaves what is observed alone;
* `ErrorAtomicity.Reached` — the states that a run can reach.

Main results:

* `ErrorAtomicity.spares_sysWrite_iff`, `ErrorAtomicity.spares_sysWritev_iff`, `ErrorAtomicity.spares_sysSendfile_iff` —
  what these calls leave behind;
* `ErrorAtomicity.entryAt_putFd_ne` — a descriptor that was made is observed;
* `ErrorAtomicity.errorAtomic_iff` — **a call fails cleanly exactly if it meets the condition**.
-/

import AtuaComputer.ErrorConditions

set_option relaxedAutoImplicit false
set_option autoImplicit false

namespace ErrorAtomicity

open VirtualFs Kernel Bridge FileIo Syscalls Outcomes FileOutcomes Observations WriteMarks Runs

/-! ### Writes at the position -/

section Writes

variable {io₀ io : FileIo.State} {pid h : ℤ} {p : Proc} {file₀ file : OpenFile} {m : Mark}

theorem length_subarray_le (bytes : List UInt8) (addr count : ℕ) :
    (subarray bytes addr (addr + count : ℕ)).length ≤ count := by
  unfold subarray clampIndex
  rw [List.length_drop, List.length_take]
  split_ifs <;> omega

theorem length_taken {limit : ℕ} {memory : List UInt8} {addr count : ℕ} {buf : List UInt8}
    (htaken : taken p limit memory addr count = some buf) : buf.length ≤ count := by
  unfold taken at htaken
  split_ifs at htaken
  obtain rfl := Option.some_inj.1 htaken
  exact length_subarray_le memory addr count

/-- The state between the entries of a `writev`: the filesystem may have changed, by writes at the position of the
file, and the file has the mark. -/
structure Writing (io₀ io : FileIo.State) (h : ℤ) (file₀ file : OpenFile) (m : Mark) : Prop where
  rest : io = withVfs io₀ io.kernel.vfs
  since : Since io₀.kernel.vfs io.kernel.vfs h file₀ file
  mark : markOf io.kernel.vfs file = m

theorem Writing.start (hfile : io.kernel.vfs.openFiles.get? h = some file) :
    Writing io io h file file (markOf io.kernel.vfs file) :=
  ⟨rfl, Since.refl hfile, rfl⟩

theorem Writing.view_iff (hw : Writing io₀ io h file₀ file m) (hfile : io₀.kernel.vfs.openFiles.get? h = some file₀) :
    view io = view io₀ ↔ m = markOf io₀.kernel.vfs file₀ := by
  rw [hw.rest, view_withVfs_iff, hw.since.view_iff hfile, hw.mark]

/-- One more write. -/
theorem Writing.step (hw : Writing io₀ io h file₀ file m) {buf : List UInt8} {length : ℕ}
    (hlength : buf.length ≤ length) :
    ∃ file', match advance io₀.limit file₀ m buf.length length with
      | .ok m' => (writeNext io.limit io.kernel.vfs h buf length).2 = some (length : ℤ) ∧
          Writing io₀ (withVfs io (writeNext io.limit io.kernel.vfs h buf length).1) h file₀ file' m'
      | .error m' => (writeNext io.limit io.kernel.vfs h buf length).2 = none ∧
          Writing io₀ (withVfs io (writeNext io.limit io.kernel.vfs h buf length).1) h file₀ file' m' := by
  have hlimit : io.limit = io₀.limit := by rw [hw.rest]; rfl
  have hadvance : advance io.limit file (markOf io.kernel.vfs file) buf.length length =
      advance io₀.limit file₀ m buf.length length := by
    rw [hw.since.kind.advance_eq, hw.mark, hlimit]
  obtain ⟨file', hsince, hout⟩ := advances_writeNext hw.since io.limit hlength
  rw [hadvance] at hout
  have hrest (v : Vfs) : withVfs io v = withVfs io₀ (withVfs io v).kernel.vfs := by
    conv_lhs => rw [hw.rest]
    rfl
  refine ⟨file', ?_⟩
  revert hout
  cases advance io₀.limit file₀ m buf.length length with
  | ok m' => exact fun hout => ⟨hout.1, hrest _, hsince, hout.2⟩
  | error m' => exact fun hout => ⟨hout.1, hrest _, hsince, hout.2⟩

/-- The writes of a `writev`, from an entry on. -/
theorem spares_writeLoop_iff (hfile : io₀.kernel.vfs.openFiles.get? h = some file₀) (iov rounds i : ℕ) (total : ℤ)
    (io : FileIo.State) (file : OpenFile) (m : Mark) (hw : Writing io₀ io h file₀ file m) :
    Spares io₀ (iovLoop pid p iov
      (fun _ iovBase iovLen => do
        let buf ← sliceGuest pid p iovBase iovLen
        onVfs fun limit v => writeNext limit v h buf iovLen) false rounds i total) io ↔
      WritevFits io₀.limit p (io₀.memory pid) iov file₀ (markOf io₀.kernel.vfs file₀) rounds i total m := by
  unfold Spares
  induction rounds generalizing i total io file m with
  | zero =>
      unfold iovLoop WritevFits
      rw [ensures_pure, hw.view_iff hfile]
  | succ rounds ih =>
      have hmemory : io.memory = io₀.memory := by rw [hw.rest]; rfl
      have hlimit : io.limit = io₀.limit := by rw [hw.rest]; rfl
      unfold iovLoop WritevFits
      rw [ensures_bind, ensures_loadIov, hmemory]
      cases iovAt p (io₀.memory pid) iov i with
      | none => exact hw.view_iff hfile
      | some words =>
          obtain ⟨iovBase, iovLen⟩ := words
          dsimp only
          rw [ensures_bind, ensures_bind, ensures_sliceGuest, hmemory, hlimit]
          cases htaken : taken p io₀.limit (io₀.memory pid) iovBase iovLen with
          | none => exact hw.view_iff hfile
          | some buf =>
              dsimp only
              rw [ensures_onVfs]
              obtain ⟨file', hout⟩ := hw.step (length_taken htaken)
              revert hout
              cases advance io₀.limit file₀ m buf.length iovLen with
              | ok m' =>
                  rintro ⟨hresult, hw'⟩
                  rw [hresult]
                  dsimp only
                  rw [if_neg fun hstop => Bool.false_ne_true hstop.1]
                  exact ih (i + 1) (total + iovLen) _ file' m' hw'
              | error m' =>
                  rintro ⟨hresult, hw'⟩
                  rw [hresult]
                  exact hw'.view_iff hfile

/-- **`write`.** -/
theorem spares_sysWrite_iff (a b c : Int32) : Spares io (sysWrite pid p a b c) io ↔ WriteFits io pid p a b c := by
  have hquiet {k : List UInt8 → Io ℤ} (hk : ∀ buf, Quiet (k buf)) :
      Quiet (do
        let buf ← sliceGuest pid p (unsigned b) (unsigned c)
        k buf) := quiet_bind (quiet_sliceGuest pid p _ _) hk
  unfold sysWrite WriteFits
  refine spares_fileEntry_iff (quiet_pure _) (fun special => hquiet fun buf => ?_)
    (fun _ _ => hquiet fun _ => quiet_pure _) (fun _ => hquiet fun _ => quiet_pure _) fun h => ?_
  · cases special with
    | stdout => exact quiet_bind (quiet_modify fun _ => rfl) fun _ => quiet_pure _
    | stderr => exact quiet_bind (quiet_modify fun _ => rfl) fun _ => quiet_pure _
    | _ => exact quiet_pure _
  · unfold Spares
    dsimp only
    rw [ensures_bind, ensures_sliceGuest]
    cases htaken : taken p io.limit (io.memory pid) (unsigned b) (unsigned c) with
    | none => exact iff_of_true rfl fun _ _ _ habsurd => absurd habsurd.symm (Option.some_ne_none _)
    | some buf =>
        dsimp only
        rw [ensures_onVfs]
        cases hfile : io.kernel.vfs.openFiles.get? h with
        | none =>
            have hnext : writeNext io.limit io.kernel.vfs h buf (unsigned c) = (io.kernel.vfs, some (-9)) := by
              unfold writeNext
              rw [hfile]
            rw [hnext]
            exact iff_of_true (fun _ => rfl) fun _ habsurd => absurd habsurd.symm (Option.some_ne_none _)
        | some file =>
            have honce (P : OpenFile → List UInt8 → Prop) :
                (∀ file', some file = some file' → ∀ buf', some buf = some buf' → P file' buf') ↔ P file buf :=
              ⟨fun hall => hall file rfl buf rfl, fun hone _ heq _ heq' =>
                Option.some_inj.1 heq ▸ Option.some_inj.1 heq' ▸ hone⟩
            rw [honce]
            obtain ⟨file', hout⟩ := (Writing.start hfile).step (length_taken htaken)
            revert hout
            cases advance io.limit file (markOf io.kernel.vfs file) buf.length (unsigned c) with
            | ok m =>
                rintro ⟨hresult, hw⟩
                rw [hresult]
                dsimp only
                rw [hw.view_iff hfile]
            | error m =>
                rintro ⟨hresult, hw⟩
                rw [hresult]
                exact hw.view_iff hfile

/-- **`writev`.** -/
theorem spares_sysWritev_iff (a b c : Int32) :
    Spares io (sysWritev pid p a b c) io ↔
      ∀ h file, openedBy fileHandle io p a = some (h, file) →
        WritevFits io.limit p (io.memory pid) (unsigned b) file (markOf io.kernel.vfs file) c.toInt.toNat 0 0
          (markOf io.kernel.vfs file) := by
  have hsum : Quiet (iovLoop pid p (unsigned b) (fun _ _ iovLen => return iovLen) false c.toInt.toNat 0 0) :=
    quiet_iovLoop (fun _ _ _ => quiet_pure _) _ _ _
  have hout : Quiet (do
      let totalLen ← iovLoop pid p (unsigned b) (fun _ _ iovLen => return iovLen) false c.toInt.toNat 0 0
      alloc totalLen.toNat
      let gathered ← gather pid p (unsigned b) c.toInt.toNat 0
      modify fun s => { s with stdout := s.stdout ++ [gathered] }
      return totalLen) := by
    refine quiet_bind hsum fun totalLen => quiet_bind (quiet_alloc _) fun _ => ?_
    refine quiet_bind (quiet_gather pid p _ _ _) fun gathered => ?_
    exact quiet_bind (quiet_modify fun _ => rfl) fun _ => quiet_pure _
  unfold sysWritev
  refine spares_fileEntry_iff (quiet_pure _) (fun special => ?_) (fun _ _ => quiet_pure _)
    (fun _ => quiet_pure _) fun h => ?_
  · cases special with
    | stdout => exact hout
    | stderr => exact hout
    | null => exact hsum
    | _ => exact quiet_pure _
  · refine spares_withFile_iff fun file hfile => ?_
    exact spares_writeLoop_iff hfile (unsigned b) c.toInt.toNat 0 0 io file _ (Writing.start hfile)

end Writes

/-! ### Writes at an offset -/

section Stores

variable {v : Vfs} {io : FileIo.State} {pid h : ℤ} {p : Proc} {file : OpenFile} {content : Buf}

/-- Bytes that are stored in a buffer are observed unless they are there already. -/
theorem fsView_storeBytes_iff (hfile : v.openFiles.get? h = some file) (hcontent : file.content = some content)
    {src : List UInt8} {off : ℕ} (hfits : off + src.length ≤ (bytesOf v content).length) :
    fsView (storeBytes v content src off).1 = fsView v ↔
      FileContents.writeAt (bytesOf v content) off src = bytesOf v content := by
  have hset : setBytes (bytesOf v content) src off = some (FileContents.writeAt (bytesOf v content) off src) := by
    have hsome : setBytes (bytesOf v content) src off =
        some ((bytesOf v content).take off ++ src ++ (bytesOf v content).drop (off + src.length)) := by
      unfold setBytes
      rw [if_pos ⟨by omega, by omega⟩, Int.toNat_natCast]
    rw [hsome, FileContents.writeAt_of_setBytes hsome, Int.toNat_natCast]
  have hstore : (storeBytes v content src off).1 =
      { v with buffers := v.buffers.set content (FileContents.writeAt (bytesOf v content) off src) } := by
    unfold storeBytes
    rw [hset]
  have hopened : (storeBytes v content src off).1.openFiles.get? h = some file := by
    rw [openFiles_storeBytes, hfile]
  constructor
  · intro hview
    have hcontents := congrArg (fun x => x.opened h) hview
    rw [fsView_opened hopened, fsView_opened hfile, hcontent, Option.some_inj, Prod.mk.injEq] at hcontents
    have hbytes : bytesOf (storeBytes v content src off).1 content = bytesOf v content :=
      Option.some_inj.1 hcontents.2
    by_cases hin : content < v.buffers.length
    · rw [hstore, FileContents.bytesOf_set hin rfl, Function.update_self] at hbytes
      exact hbytes
    · have hnil : bytesOf v content = [] := List.getD_eq_default _ _ (Nat.le_of_not_lt hin)
      rw [hnil, List.length_nil] at hfits
      have hoff : off = 0 := by omega
      have hsrc : src = [] := List.length_eq_zero_iff.1 (by omega)
      rw [hoff, hsrc, FileContents.writeAt_nil_iff]
      exact Nat.zero_le _
  · intro hsame
    have hbytes : bytesOf (storeBytes v content src off).1 = bytesOf v := by
      rw [hstore, hsame]
      funext i
      unfold bytesOf
      dsimp only
      rw [List.getD_eq_getElem?_getD, List.getD_eq_getElem?_getD, List.getElem?_set]
      split_ifs with hi hlt
      · rw [← hi, List.getD_eq_getElem?_getD]
        cases hget : v.buffers[content]? <;> rfl
      · rw [← hi]
        exact (List.getD_eq_default _ _ (Nat.le_of_not_lt hlt)).symm
      · rfl
    unfold fsView
    rw [hbytes, hstore]

/-- A buffer that has got longer is observed. -/
theorem fsView_growFile_ne (hfile : v.openFiles.get? h = some file) (hcontent : file.content = some content)
    (bytes : List UInt8) (hlonger : (bytesOf v content).length < bytes.length) :
    fsView (growFile v h file.path bytes).1 ≠ fsView v := by
  intro hview
  have hstart := Since.refl hfile
  have hmark : (markOf v file).length = (bytesOf v content).length := by
    rw [markOf, contentLength, hcontent]
  obtain ⟨hsince, hgrown⟩ := hstart.grows (by rw [hcontent]; exact Option.some_ne_none content)
    (hmark ▸ hlonger)
  have hsame := (hsince.view_iff hfile).1 hview
  rw [hgrown] at hsame
  have hlength := congrArg Mark.length hsame
  dsimp only at hlength
  omega

/-- A write at an offset, of a call with the result. -/
theorem ensures_writeFile_iff (hfile : io.kernel.vfs.openFiles.get? h = some file) (src : List UInt8)
    (offset result : ℕ) :
    Ensures (onVfs fun limit v => writeFile limit v h src offset) io
      (fun _ io' => Failed result → view io' = view io) (fun io' => view io' = view io) ↔
      StoreFits io.limit io.kernel.vfs file src offset result := by
  rw [ensures_onVfs]
  unfold StoreFits writeFile
  rw [hfile]
  dsimp only
  by_cases hnull : file.special = some .null
  · rw [if_pos hnull]
    exact iff_of_true (fun _ => rfl) fun _ hne => absurd hnull hne
  rw [if_neg hnull]
  cases hcontent : file.content with
  | none => exact iff_of_true rfl fun _ _ _ habsurd => absurd habsurd.symm (Option.some_ne_none _)
  | some content =>
      have honce (P : Buf → Prop) :
          (Failed result → file.special ≠ some .null → ∀ content', some content = some content' → P content') ↔
            (Failed result → P content) :=
        ⟨fun hall hfailed => hall hfailed hnull content rfl,
          fun hone hfailed _ _ heq => Option.some_inj.1 heq ▸ hone hfailed⟩
      rw [honce]
      obtain ⟨off, hoff, hoff'⟩ : ∃ off : ℕ,
          (if file.append then ((bytesOf io.kernel.vfs content).length : ℤ) else (offset : ℤ)) = off ∧
            (if file.append then (bytesOf io.kernel.vfs content).length else offset) = off := by
        split_ifs
        · exact ⟨_, rfl, rfl⟩
        · exact ⟨_, rfl, rfl⟩
      dsimp only
      rw [hoff, hoff']
      -- an offset that is not negative is never torn
      have hout := written_writeContent io.limit io.kernel.vfs h file.path content src off
      revert hout
      generalize writeContent io.limit io.kernel.vfs h file.path content src off = out
      intro hout
      cases hout with
      | full hgrows hroom => exact iff_of_true rfl fun _ hor => by omega
      | torn hgrows hroom habsurd => omega
      | grown hgrows hroom _ bytes hneeded =>
          dsimp only
          rw [view_withVfs_iff]
          have hne := fsView_growFile_ne hfile hcontent bytes (by omega)
          refine forall_congr' fun _ => iff_of_false hne fun hsame => ?_
          have hlength := congrArg List.length (hsame (by omega))
          rw [FileContents.length_writeAt] at hlength
          omega
      | before hfits habsurd => omega
      | inPlace hfits =>
          have hfits' : off + src.length ≤ (bytesOf io.kernel.vfs content).length := by exact_mod_cast hfits
          dsimp only
          rw [view_withVfs_iff, fsView_storeBytes_iff hfile hcontent hfits']
          refine forall_congr' fun _ => ⟨fun hsame _ => hsame, fun hsame => hsame (Or.inl hfits')⟩

/-- **`pwrite64`.** -/
theorem spares_sysPwrite64_iff (a b c d e : Int32) :
    Spares io (sysPwrite64 pid p a b c d e) io ↔
      ∀ h file, openedBy fileHandle io p a = some (h, file) →
        ∀ src, taken p io.limit (io.memory pid) (unsigned b) (unsigned c) = some src →
          StoreFits io.limit io.kernel.vfs file src (offset64 d e) (unsigned c) := by
  unfold sysPwrite64
  refine spares_fileEntry_iff (quiet_pure _) (fun _ => quiet_pure _) (fun _ _ => quiet_pure _) (fun _ => quiet_pure _)
    fun h => spares_withFile_iff fun file hfile => ?_
  unfold Spares
  rw [ensures_bind, ensures_sliceGuest]
  cases taken p io.limit (io.memory pid) (unsigned b) (unsigned c) with
  | none => exact iff_of_true rfl fun _ habsurd => absurd habsurd.symm (Option.some_ne_none _)
  | some src =>
      have honce (P : List UInt8 → Prop) : (∀ src', some src = some src' → P src') ↔ P src :=
        ⟨fun hall => hall src rfl, fun hone _ heq => Option.some_inj.1 heq ▸ hone⟩
      rw [honce]
      dsimp only
      rw [ensures_bind]
      exact ensures_writeFile_iff hfile src (offset64 d e) (unsigned c)

/-- **`FS_WRITE`.** -/
theorem spares_sysFsWrite_iff (a b c d e : Int32) :
    Spares io (sysFsWrite pid p a b c d e) io ↔
      ∀ file, io.kernel.vfs.openFiles.get? a.toInt = some file →
        ∀ src, taken p io.limit (io.memory pid) (unsigned b) (unsigned c) = some src →
          StoreFits io.limit io.kernel.vfs file src (offset64 d e) src.length := by
  unfold sysFsWrite Spares
  rw [ensures_bind, ensures_sliceGuest]
  cases taken p io.limit (io.memory pid) (unsigned b) (unsigned c) with
  | none => exact iff_of_true rfl fun _ _ _ habsurd => absurd habsurd.symm (Option.some_ne_none _)
  | some src =>
      dsimp only
      cases hfile : io.kernel.vfs.openFiles.get? a.toInt with
      | none =>
          rw [ensures_onVfs]
          have hmissing : writeFile io.limit io.kernel.vfs a.toInt src (offset64 d e) = (io.kernel.vfs, some (-1)) := by
            unfold writeFile
            rw [hfile]
          rw [hmissing]
          exact iff_of_true (fun _ => rfl) fun _ habsurd => absurd habsurd.symm (Option.some_ne_none _)
      | some file =>
          have honce (P : OpenFile → List UInt8 → Prop) :
              (∀ file', some file = some file' → ∀ src', some src = some src' → P file' src') ↔ P file src :=
            ⟨fun hall => hall file rfl src rfl, fun hone _ heq _ heq' =>
              Option.some_inj.1 heq ▸ Option.some_inj.1 heq' ▸ hone⟩
          rw [honce, ← ensures_writeFile_iff hfile, ensures_onVfs, ensures_onVfs]
          rcases FileContents.writeFile_result io.limit hfile src (offset64 d e) with hresult | hresult
          · rw [hresult]
          · rw [hresult]

/-- **`ftruncate`** does nothing if it fails. -/
theorem spares_sysFtruncate (a b : Int32) : Spares io (sysFtruncate p a b) io := by
  have htruncate (h : ℤ) : Spares io (onVfs fun limit v => truncateFile limit v h (unsigned b)) io := by
    unfold Spares
    rw [ensures_onVfs]
    unfold truncateFile
    cases io.kernel.vfs.openFiles.get? h with
    | none => exact fun _ => rfl
    | some file =>
        dsimp only
        by_cases hdir : file.isDir = true
        · rw [if_pos hdir]
          exact fun _ => rfl
        rw [if_neg hdir]
        by_cases hspecial : file.special.isSome = true
        · rw [if_pos hspecial]
          exact fun _ => rfl
        rw [if_neg hspecial]
        cases file.content with
        | none => rfl
        | some content =>
            have hzero : ¬ Failed 0 := by decide
            dsimp only
            unfold resizeFile
            dsimp only
            by_cases hsame : unsigned b = (bytesOf io.kernel.vfs content).length
            · rw [if_pos hsame]
              exact fun habsurd => absurd habsurd hzero
            rw [if_neg hsame]
            by_cases hroom : io.limit < unsigned b
            · rw [if_pos hroom]
              rfl
            · rw [if_neg hroom]
              exact fun habsurd => absurd habsurd hzero
  unfold sysFtruncate
  refine (spares_fileEntry_iff (P := fun _ _ => True) (quiet_pure _) (fun _ => quiet_pure _) (fun _ _ => quiet_pure _)
    (fun _ => quiet_pure _) fun h => ?_).2 fun _ _ _ => trivial
  exact iff_of_true (htruncate h) fun _ _ => trivial

end Stores

/-! ### Sending -/

section Sends

variable {v : Vfs} {io : FileIo.State} {pid : ℤ} {p : Proc}

theorem writeFile_end (limit : ℕ) (v : Vfs) (h : ℤ) (src : List UInt8) (offset : ℤ) :
    match writeEnd limit v h src.length offset with
    | .done => ∃ n, (writeFile limit v h src offset).2 = some n
    | .refused => writeFile limit v h src offset = (v, none)
    | .torn => (writeFile limit v h src offset).2 = none ∧ fsView (writeFile limit v h src offset).1 ≠ fsView v := by
  unfold writeEnd writeFile
  cases hfile : v.openFiles.get? h with
  | none => exact ⟨_, rfl⟩
  | some file =>
      dsimp only
      by_cases hnull : file.special = some .null
      · rw [if_pos hnull, if_pos hnull]
        exact ⟨_, rfl⟩
      rw [if_neg hnull, if_neg hnull]
      cases hcontent : file.content with
      | none => rfl
      | some content =>
          dsimp only
          generalize (if file.append then ((bytesOf v content).length : ℤ) else offset) = start
          have hout := written_writeContent limit v h file.path content src start
          revert hout
          generalize writeContent limit v h file.path content src start = out
          intro hout
          cases hout with
          | full hgrows hroom =>
              rw [if_pos ⟨hgrows, hroom⟩]
          | torn hgrows hroom hoff bytes hneeded =>
              rw [if_neg fun hfull => absurd hfull.2 (Int.not_lt.2 hroom), if_neg (Int.not_le.2 hoff), if_pos hgrows]
              exact ⟨rfl, fsView_growFile_ne hfile hcontent _ (by omega)⟩
          | grown hgrows hroom hoff bytes hneeded =>
              rw [if_neg fun hfull => absurd hfull.2 (Int.not_lt.2 hroom), if_pos hoff]
              exact ⟨_, rfl⟩
          | before hfits hoff =>
              rw [if_neg fun hfull => absurd hfull.1 (Int.not_lt.2 hfits), if_neg (Int.not_le.2 hoff),
                if_neg (Int.not_lt.2 hfits)]
          | inPlace hfits hoff =>
              rw [if_neg fun hfull => absurd hfull.1 (Int.not_lt.2 hfits), if_pos hoff]
              exact ⟨_, rfl⟩

theorem returns_regularFile (a : Int32) : Returns (regularFile p a) io (openedBy fileHandle io p a) io := by
  unfold regularFile openedBy
  cases p.fdTable.get? a.toInt with
  | none => exact returns_pure _ io
  | some entry =>
      obtain ⟨kind, cell⟩ := entry
      cases kind with
      | file h => exact (show Returns (getFile h) io _ io from rfl).bind (returns_pure _ io)
      | special special => exact returns_pure _ io
      | pipe fdEnd off => exact returns_pure _ io
      | dir h => exact returns_pure _ io

/-- The offset is loaded, or is the position, and the computation goes on. -/
theorem ensures_offset {c : Int32} {position : ℤ} {k : ℤ → Io ℤ} {Q : ℤ → FileIo.State → Prop}
    {E : FileIo.State → Prop} :
    Ensures (if c = 0 then pure position >>= k else loadBig pid p (unsigned c) >>= k) io Q E ↔
      match SendFile.offsetOf io pid p c position with
      | none => E io
      | some offset => Ensures (k offset) io Q E := by
  cases hoffset : SendFile.offsetOf io pid p c position with
  | none => exact ensures_of_throws (SendFile.throws_offset hoffset k)
  | some offset =>
      unfold SendFile.offsetOf at hoffset
      rw [ensures_ite]
      split_ifs at hoffset ⊢ with hc hin
      · rw [ensures_bind, ensures_pure, Option.some_inj.1 hoffset]
      · rw [ensures_bind, ensures_of_returns (returns_loadBig hin.1 hin.2), Option.some_inj.1 hoffset]

/-- A position that has moved is observed. -/
theorem fsView_ne_of_position {w : Vfs} {h : ℤ} (hmoved : SendFile.positionOf w h ≠ SendFile.positionOf v h) :
    fsView w ≠ fsView v := by
  intro hview
  have hopened := congrArg (fun x => (x.opened h).map Prod.fst) hview
  dsimp only [fsView] at hopened
  rw [Option.map_map, Option.map_map] at hopened
  exact hmoved hopened

/-- What was sent is observed. -/
theorem view_advanced_ne {c : Int32} {outFd inFd : ℤ} {outFile inFile : OpenFile} {w : Vfs}
    (hout : io.kernel.vfs.openFiles.get? outFd = some outFile) (hin : io.kernel.vfs.openFiles.get? inFd = some inFile)
    (hw : ∀ h, SendFile.positionOf w h = SendFile.positionOf io.kernel.vfs h) {offset avail : ℤ} (havail : 0 < avail)
    (hoffset : c = 0 → offset = inFile.position) :
    view (SendFile.advanced (withVfs io (seek w outFd (outFile.position + avail))) pid inFd c (offset + avail)) ≠
      view io := by
  have hbefore : SendFile.positionOf io.kernel.vfs outFd = some outFile.position := by
    rw [SendFile.positionOf, hout, Option.map_some]
  have hopenOut : (SendFile.positionOf w outFd).isSome = true := by rw [hw, hbefore]; rfl
  have hopenIn : (SendFile.positionOf (seek w outFd (outFile.position + avail)) inFd).isSome = true := by
    rw [SendFile.positionOf_seek hopenOut]
    split_ifs
    · rfl
    · rw [hw, SendFile.positionOf, hin]
      rfl
  intro hview
  have hfs := congrArg View.fs hview
  unfold SendFile.advanced at hfs
  split_ifs at hfs with hc
  · refine fsView_ne_of_position (h := outFd) ?_ hfs
    show SendFile.positionOf (seek (seek w outFd (outFile.position + avail)) inFd (offset + avail)) outFd ≠ _
    rw [SendFile.positionOf_seek hopenIn, SendFile.positionOf_seek hopenOut, if_pos rfl, hbefore]
    split_ifs with hsame
    · rw [hsame] at hout
      rw [hoffset hc, Option.some_inj.1 (hin.symm.trans hout), Ne, Option.some_inj]
      omega
    · rw [Ne, Option.some_inj]
      omega
  · refine fsView_ne_of_position (h := outFd) ?_ hfs
    show SendFile.positionOf (seek w outFd (outFile.position + avail)) outFd ≠ _
    rw [SendFile.positionOf_seek hopenOut, if_pos rfl, hbefore, Ne, Option.some_inj]
    omega

theorem openedBy_file {a : Int32} {h : ℤ} {file : OpenFile} (ho : openedBy fileHandle io p a = some (h, file)) :
    p.fdTable.has a.toInt = true ∧ io.kernel.vfs.openFiles.get? h = some file := by
  unfold openedBy at ho
  obtain ⟨entry, hentry, ho⟩ := Option.bind_eq_some_iff.1 ho
  obtain ⟨h', -, ho⟩ := Option.bind_eq_some_iff.1 ho
  obtain ⟨file', hfile, heq⟩ := Option.map_eq_some_iff.1 ho
  obtain ⟨rfl, rfl⟩ := Prod.mk.inj heq
  exact ⟨JsMap.has_iff.2 ⟨entry, hentry⟩, hfile⟩

/-- The part of `sendfile` after the offset was loaded. -/
theorem spares_send_iff (a c : Int32) {outFd inFd : ℤ} {outFile inFile : OpenFile}
    (hout : io.kernel.vfs.openFiles.get? outFd = some outFile) (hin : io.kernel.vfs.openFiles.get? inFd = some inFile)
    {offset : ℤ} (hoffset : SendFile.offsetOf io pid p c inFile.position = some offset) (bytes : List UInt8)
    (avail : ℤ) (havail : 0 < avail) :
    Spares io (do
      sendBytes a outFd bytes avail
      if c = 0 then setPosition inFd (offset + avail) else storeWord pid p 8 (unsigned c) (offset + avail)
      return avail) io ↔
      match writeEnd io.limit io.kernel.vfs a.toInt bytes.length outFile.position with
      | .done => ¬ Failed avail
      | .refused => True
      | .torn => False := by
  have hend := writeFile_end io.limit io.kernel.vfs a.toInt bytes outFile.position
  have hthrows {w : Vfs} (hwrite : writeFile io.limit io.kernel.vfs a.toInt bytes outFile.position = (w, none)) :=
    SendFile.throws_sendBytes hout hwrite avail
  unfold Spares
  rw [ensures_bind]
  revert hend
  cases writeEnd io.limit io.kernel.vfs a.toInt bytes.length outFile.position with
  | done =>
      rintro ⟨n, hresult⟩
      have hpositions := SendFile.positionOf_writeFile io.limit io.kernel.vfs a.toInt bytes outFile.position
      revert hresult hpositions
      cases hwrite : writeFile io.limit io.kernel.vfs a.toInt bytes outFile.position with
      | mk w r =>
          rintro (rfl : r = some n) hpositions
          have hl : SendFile.Loads (withVfs io (seek w outFd (outFile.position + avail))) pid p c :=
            SendFile.loads_of_offset hoffset
          have hpure (s' : FileIo.State) : Ends (pure avail) s' avail s' true := returns_pure avail s'
          have hrest : Ends (if c = 0 then setPosition inFd (offset + avail) >>= fun _ => pure avail
              else storeWord pid p 8 (unsigned c) (offset + avail) >>= fun _ => pure avail) _ avail _ true :=
            SendFile.ends_advance hl (offset + avail) (hpure _)
          -- a count that is positive moves a position or the offset
          have hne : view (SendFile.advanced (withVfs io (seek w outFd (outFile.position + avail))) pid inFd c
              (offset + avail)) ≠ view io := by
            refine view_advanced_ne hout hin hpositions havail fun hc => ?_
            rw [SendFile.offsetOf, if_pos hc] at hoffset
            exact (Option.some_inj.1 hoffset).symm
          rw [ensures_of_returns (SendFile.returns_sendBytes hout hwrite avail), ensures_of_returns hrest]
          exact ⟨fun hspared hfailed => hne (hspared hfailed), fun hfits hfailed => absurd hfailed hfits⟩
  | refused =>
      -- refused before anything was changed
      intro hrefused
      rw [ensures_of_throws (hthrows hrefused)]
      exact iff_of_true rfl trivial
  | torn =>
      rintro ⟨hnone, hne⟩
      revert hnone hne
      cases hwrite : writeFile io.limit io.kernel.vfs a.toInt bytes outFile.position with
      | mk w r =>
          rintro (rfl : r = none) hne
          rw [ensures_of_throws (hthrows hwrite), view_withVfs_iff]
          exact iff_of_false hne id

/-- **`sendfile`.** -/
theorem spares_sysSendfile_iff (a b c d : Int32) :
    Spares io (sysSendfile pid p a b c d) io ↔ SendFits io pid p a b c d := by
  unfold sysSendfile Spares SendFits
  rw [ensures_ite]
  by_cases hhas : ¬ p.fdTable.has a.toInt ∨ ¬ p.fdTable.has b.toInt
  · rw [if_pos hhas, ensures_pure]
    refine iff_of_true (fun _ => rfl) fun outFd outFile inFd inFile hA hB => ?_
    exact absurd hhas (by rw [(openedBy_file hA).1, (openedBy_file hB).1]; simp)
  · rw [if_neg hhas, ensures_bind, ensures_of_returns (returns_regularFile a), ensures_bind,
      ensures_of_returns (returns_regularFile b)]
    cases hA : openedBy fileHandle io p a with
    | none => exact iff_of_true (fun _ => rfl) fun _ _ _ _ habsurd => absurd habsurd.symm (Option.some_ne_none _)
    | some out =>
        obtain ⟨outFd, outFile⟩ := out
        cases hB : openedBy fileHandle io p b with
        | none => exact iff_of_true (fun _ => rfl) fun _ _ _ _ _ habsurd => absurd habsurd.symm (Option.some_ne_none _)
        | some inp =>
            obtain ⟨inFd, inFile⟩ := inp
            have honce (P : ℤ → OpenFile → ℤ → OpenFile → Prop) :
                (∀ outFd' outFile' inFd' inFile', some (outFd, outFile) = some (outFd', outFile') →
                  some (inFd, inFile) = some (inFd', inFile') → P outFd' outFile' inFd' inFile') ↔
                  P outFd outFile inFd inFile := by
              constructor
              · exact fun hall => hall _ _ _ _ rfl rfl
              · rintro hone _ _ _ _ ⟨⟩ ⟨⟩
                exact hone
            rw [honce]
            dsimp only
            rw [ensures_offset]
            cases hoffset : SendFile.offsetOf io pid p c inFile.position with
            | none => exact iff_of_true rfl fun _ habsurd => absurd habsurd.symm (Option.some_ne_none _)
            | some offset =>
                have honce' (P : ℤ → Prop) : (∀ offset', some offset = some offset' → P offset') ↔ P offset :=
                  ⟨fun hall => hall offset rfl, fun hone _ heq => Option.some_inj.1 heq ▸ hone⟩
                rw [honce']
                dsimp only
                rw [ensures_bind, ensures_get, ensures_ite]
                by_cases havail : min (unsigned d : ℤ) (contentLength io.kernel.vfs inFile - offset) ≤ 0
                · rw [if_pos havail, ensures_pure]
                  exact iff_of_true (fun _ => rfl) fun habsurd => absurd havail (Int.not_le.2 habsurd)
                · have hpos := Int.not_le.1 havail
                  rw [if_neg havail, forall_prop_of_true hpos]
                  exact spares_send_iff a c (openedBy_file hA).2 (openedBy_file hB).2 hoffset _ _ hpos

end Sends

/-! ### The other calls -/

section Others

variable {io : FileIo.State} {pid : ℤ} {p : Proc}

theorem spares_change (f : Vfs → Vfs) : Spares io (change f) io := by
  unfold change Spares
  rw [ensures_onVfs]
  exact fun hfailed => absurd hfailed (by decide)

theorem spares_atPath (dirfd : Int32) (path : Path) (error : ℤ) {body : Path → Io ℤ}
    (hbody : ∀ path, Spares io (body path) io) : Spares io (atPath dirfd path error body) io := by
  unfold atPath Spares
  rw [ensures_ite]
  split_ifs
  · exact fun _ => rfl
  · exact hbody _

theorem spares_sysLinkat (a : Int32) (oldpath : Path) (c : Int32) (newpath : Path) :
    Spares io (sysLinkat p a oldpath c newpath) io := by
  refine spares_atPath _ _ _ fun oldpath => spares_atPath _ _ _ fun newpath => ?_
  unfold Spares
  rw [ensures_bind, ensures_get]
  dsimp only
  cases io.kernel.vfs.files.get? (resolvePath io.kernel.vfs.symlinks oldpath) with
  | none => exact fun _ => rfl
  | some content => exact spares_change _

/-- The calls of `Syscalls.handler`. -/
theorem spares_handler_iff (bootTime : ℤ) (call : Syscalls.Call) :
    Spares io (handler bootTime pid p call) io ↔ OtherFits io pid p call := by
  cases hchanges : Changes call with
  | false =>
      refine iff_of_true (spares_of_quiet (quiet_handler bootTime pid p hchanges) rfl) ?_
      cases call with
      | sendfile | fsWrite => cases hchanges
      | _ => trivial
  | true =>
      cases call with
      | sendfile a b c d => exact spares_sysSendfile_iff a b c d
      | fsWrite a b c d e =>
          unfold handler OtherFits
          exact spares_sysFsWrite_iff a b c d e
      | mkdir path b =>
          unfold handler sysMkdir
          exact iff_of_true (spares_change _) trivial
      | mkdirat a path c =>
          unfold handler sysMkdirat
          exact iff_of_true (spares_atPath _ _ _ fun _ => spares_change _) trivial
      | unlink path =>
          unfold handler sysUnlink
          exact iff_of_true (spares_change _) trivial
      | unlinkat a path c =>
          unfold handler sysUnlinkat
          exact iff_of_true (spares_atPath _ _ _ fun _ => spares_change _) trivial
      | rename oldPath newPath =>
          unfold handler sysRename
          exact iff_of_true (spares_change _) trivial
      | renameat a oldPath c newPath =>
          unfold handler sysRenameat
          exact iff_of_true (spares_atPath _ _ _ fun _ => spares_atPath _ _ _ fun _ => spares_change _) trivial
      | symlinkat target b linkpath =>
          unfold handler sysSymlinkat
          exact iff_of_true (spares_atPath _ _ _ fun _ => spares_change _) trivial
      | linkat a oldpath c newpath =>
          unfold handler
          exact iff_of_true (spares_sysLinkat a oldpath c newpath) trivial
      | _ => cases hchanges

/-- The calls on files. -/
theorem spares_fileHandler_iff (a : Int32) (call : FileCall) :
    Spares io (fileHandler pid p a call) io ↔ FileFits io pid p a call := by
  cases call with
  | read b c => exact spares_sysRead_iff a b c
  | write b c => exact spares_sysWrite_iff a b c
  | readv b c => exact spares_sysReadv_iff a b c
  | writev b c => exact spares_sysWritev_iff a b c
  | pread64 b c d e => exact iff_of_true (spares_of_quiet (quiet_sysPread64 pid p a b c d e) rfl) trivial
  | preadv b c d e => exact iff_of_true (spares_of_quiet (quiet_sysPreadv pid p a b c d e) rfl) trivial
  | pwrite64 b c d e => exact spares_sysPwrite64_iff a b c d e
  | lseek b c => exact spares_sysLseek_iff a b c
  | ftruncate b => exact iff_of_true (spares_sysFtruncate a b) trivial
  | getdents64 b c => exact spares_sysGetdents64_iff a b c

end Others

/-! ### Calls on descriptors -/

section Kernels

variable {k k₁ : Kernel.State} {pid : ℤ} {p : Proc} {io : FileIo.State}

/-- Equal tables, flags and filesystems look the same. -/
theorem view_congr {k' : Kernel.State}
    (htable : ∀ q, (k'.processTable.get? q).map Proc.fdTable = (io.kernel.processTable.get? q).map Proc.fdTable)
    (hflags : k'.cloexec = io.kernel.cloexec) (hvfs : fsView k'.vfs = fsView io.kernel.vfs) :
    view { io with kernel := k' } = view io := by
  have hentry (q fd : ℤ) : entryAt k' q fd = entryAt io.kernel q fd := by
    have hbind := congrArg (fun table => table.bind fun t => t.get? fd) (htable q)
    rw [Option.bind_map, Option.bind_map] at hbind
    exact hbind
  unfold view
  dsimp only
  rw [hvfs, funext htable, hflags]
  simp only [hentry]

/-- An entry that is another one is observed. -/
theorem view_ne_of_entry (io : FileIo.State) {k' : Kernel.State} {q fd : ℤ}
    (hne : entryAt k' q fd ≠ entryAt io.kernel q fd) :
    view { io with kernel := k' } ≠ view io := by
  intro hview
  have htable := congrArg (fun x => (x.tables q).bind fun t => t.get? fd) hview
  dsimp only [view] at htable
  rw [Option.bind_map, Option.bind_map] at htable
  exact hne htable

/-- A descriptor that was made is a new object. -/
theorem entryAt_putFd_ne (hs : Isolation.Stored k) (hp : k₁.processTable.has pid = true)
    (hflags : k.cloexec.length ≤ k₁.cloexec.length) (fd : ℤ) (kind : FdKind) (flag : Bool) :
    entryAt (putFd k₁ pid fd kind flag) pid fd ≠ entryAt k pid fd := by
  rw [entryAt_putFd hp, if_pos ⟨rfl, rfl⟩]
  intro hsame
  have hlt := hs pid fd _ hsame.symm
  exact absurd hlt (Nat.not_lt.2 hflags)

/-- There is a content unless the file is missing and not to be made. -/
theorem openContent_cases (v : Vfs) (resolved : Path) (flags mode : Int32) :
    ((v.files.has resolved = true ∨ hasFlag flags oCreat = true) ∧
        ∃ w content, openContent v resolved flags mode = (w, some content) ∧ w.nextFd = v.nextFd) ∨
      (¬ (v.files.has resolved = true ∨ hasFlag flags oCreat = true) ∧
        openContent v resolved flags mode = (v, none)) := by
  have htable := sameTable_openContent v resolved flags mode
  have hhas : v.files.has resolved = (v.files.get? resolved).isSome := rfl
  revert htable
  unfold openContent
  rw [hhas]
  cases v.files.get? resolved with
  | some content =>
      intro htable
      refine .inl ⟨.inl rfl, ?_⟩
      dsimp only at htable ⊢
      split_ifs at htable ⊢
      · exact ⟨_, _, rfl, htable.1⟩
      · exact ⟨_, _, rfl, htable.1⟩
  | none =>
      intro htable
      dsimp only at htable ⊢
      by_cases hcreat : hasFlag flags oCreat = true
      · refine .inl ⟨.inr hcreat, ?_⟩
        rw [if_pos hcreat] at htable ⊢
        dsimp only at htable ⊢
        split_ifs at htable ⊢
        · exact ⟨_, _, rfl, htable.1⟩
        · exact ⟨_, _, rfl, htable.1⟩
      · refine .inr ⟨fun hor => hor.elim Bool.false_ne_true hcreat, ?_⟩
        rw [if_neg hcreat]
        rfl

/-- **`open` gives the next number exactly if it finds or makes something**, and has done nothing otherwise. -/
theorem openFile_outcome (v : Vfs) (path : Path) (flags mode : Int32) :
    (Opens v path flags ∧ (openFile v path flags mode).2 = v.nextFd) ∨
      (¬ Opens v path flags ∧ (openFile v path flags mode).1 = v ∧ (openFile v path flags mode).2 < 0) := by
  unfold Opens openFile
  dsimp only
  by_cases hnull : absolute path = "/dev/null".toList
  · rw [if_pos hnull]
    exact .inl ⟨.inl (.inl hnull), rfl⟩
  rw [if_neg hnull]
  by_cases hrandom : absolute path = "/dev/urandom".toList ∨ absolute path = "/dev/random".toList
  · rw [if_pos hrandom]
    exact .inl ⟨.inl (.inr hrandom), rfl⟩
  rw [if_neg hrandom]
  have hdevice : ¬ isDevice (absolute path) := fun h => h.elim hnull hrandom
  rw [or_iff_right hdevice]
  generalize resolvePath v.symlinks (absolute path) = resolved
  by_cases hwhite : v.whiteouts.has resolved = true ∧ ¬ hasFlag flags oCreat = true
  · rw [if_pos hwhite]
    exact .inr ⟨fun h => h.1 hwhite, rfl, (by decide : (-1 : ℤ) < 0)⟩
  rw [if_neg hwhite, and_iff_right hwhite]
  by_cases hdir : hasFlag flags oDirectory = true
  · rw [if_pos hdir, if_pos hdir]
    by_cases hfound : v.dirs.has resolved = true ∨ v.dirs.has (absolute path) = true
    · rw [if_pos hfound]
      exact .inl ⟨hfound, rfl⟩
    · rw [if_neg hfound]
      exact .inr ⟨hfound, rfl, (by decide : (-1 : ℤ) < 0)⟩
  rw [if_neg hdir, if_neg hdir]
  by_cases hexcl : hasFlag flags oCreat = true ∧ hasFlag flags oExcl = true ∧
      (v.files.has resolved = true ∨ v.dirs.has resolved = true)
  · rw [if_pos hexcl]
    exact .inr ⟨fun h => h.1 hexcl, rfl, (by decide : (-17 : ℤ) < 0)⟩
  rw [if_neg hexcl, and_iff_right hexcl]
  rcases openContent_cases v resolved flags mode with ⟨hcontent, w, content, heq, hnext⟩ | ⟨hcontent, heq⟩
  · rw [heq]
    refine .inl ⟨?_, hnext⟩
    exact hcontent.elim .inl fun h => .inr (.inl h)
  · rw [heq]
    dsimp only
    by_cases hfound : v.dirs.has resolved = true ∨ v.dirs.has (absolute path) = true
    · rw [if_pos hfound]
      exact .inl ⟨.inr (.inr hfound), rfl⟩
    · rw [if_neg hfound]
      refine .inr ⟨?_, rfl, (by decide : (-1 : ℤ) < 0)⟩
      rintro (h | h | h)
      · exact hcontent (.inl h)
      · exact hcontent (.inr h)
      · exact hfound h

/-- A call on descriptors leaves what is observed alone if its result is a negative word. -/
def KernelSpares (io : FileIo.State) (out : Outcome) : Prop :=
  Failed out.result → view { io with kernel := out.kernel } = view io

/-- The call succeeds. -/
theorem kernelSpares_of_zero {out : Outcome} (hzero : out.result = 0) : KernelSpares io out := by
  intro hfailed
  rw [hzero] at hfailed
  exact absurd hfailed (by decide)

/-- A descriptor was made. -/
theorem kernelSpares_install_iff (hs : Isolation.Stored io.kernel) (k₁ : Kernel.State)
    (hp : k₁.processTable.has pid = true)
    (hflags : k₁.cloexec = io.kernel.cloexec) (fd : ℤ) (kind : FdKind) (flag : Bool) (result : ℤ) (high : Option Int32)
    (posts : List Post) :
    KernelSpares io ⟨bumpFd (putFd k₁ pid fd kind flag) pid fd, result, high, posts⟩ ↔ ¬ Failed result := by
  have hentry : entryAt (bumpFd (putFd k₁ pid fd kind flag) pid fd) pid fd ≠ entryAt io.kernel pid fd := by
    rw [entryAt_bumpFd]
    exact entryAt_putFd_ne hs hp (Nat.le_of_eq (congrArg List.length hflags.symm)) fd kind flag
  have hne := view_ne_of_entry _ hentry
  exact ⟨fun hspared hfailed => hne (hspared hfailed), fun hfits hfailed => absurd hfailed hfits⟩

/-- `Int32` numbers are the words they are. -/
theorem failed_toInt_iff (b : Int32) : Failed b.toInt ↔ b.toInt < 0 := by
  unfold Failed
  rw [Int32.ofInt_toInt]

/-- A descriptor that is not there. -/
theorem not_has_of_get? {a : Int32} (hget : p.fdTable.get? a.toInt = none) : ¬ p.fdTable.has a.toInt = true := by
  rw [JsMap.has, hget]
  exact Bool.false_ne_true

section Calls

variable (hs : Isolation.Stored io.kernel) (hp : io.kernel.processTable.get? pid = some p)
include hs hp

theorem spares_openPath_iff (hn : 0 ≤ io.kernel.vfs.nextFd) (path : Path) (flags mode : Int32) :
    KernelSpares io (openPath io.kernel pid p path flags mode) ↔ OpenFits io.kernel p path flags := by
  have hhas : io.kernel.processTable.has pid = true := JsMap.has_iff.2 ⟨p, hp⟩
  have hout := openFile_outcome io.kernel.vfs (readCString p path) flags mode
  unfold openPath OpenFits
  dsimp only
  rcases hout with ⟨hopens, hfd⟩ | ⟨hrefused, hsame, hneg⟩
  · rw [if_pos (by rw [hfd]; exact hn), hfd, forall_prop_of_true hopens]
    exact kernelSpares_install_iff hs
      { io.kernel with vfs := (openFile io.kernel.vfs (readCString p path) flags mode).1 }
      hhas rfl _ _ _ _ _ _
  · rw [if_neg (Int.not_le.2 hneg), hsame]
    exact iff_of_true (fun _ => rfl) fun hopens => absurd hopens hrefused

theorem spares_sysDup_iff (a : Int32) :
    KernelSpares io (sysDup io.kernel pid p a) ↔ (p.fdTable.has a.toInt = true → ¬ Failed p.nextFd) := by
  have hhas : io.kernel.processTable.has pid = true := JsMap.has_iff.2 ⟨p, hp⟩
  unfold sysDup
  cases hget : p.fdTable.get? a.toInt with
  | none => exact iff_of_true (fun _ => rfl) fun hentry => absurd hentry (not_has_of_get? hget)
  | some entry =>
      have hentry : p.fdTable.has a.toInt = true := JsMap.has_iff.2 ⟨entry, hget⟩
      dsimp only
      rw [kernelSpares_install_iff hs io.kernel hhas rfl, forall_prop_of_true hentry]

omit hp in
/-- `dup2` and `dup3` with two numbers, whatever is done with the target before. -/
theorem kernelSpares_replace_iff {a b : Int32} (hentry : p.fdTable.has a.toInt = true) (hne : a ≠ b)
    (k₁ : Kernel.State) (hhas : k₁.processTable.has pid = true) (hflags : k₁.cloexec = io.kernel.cloexec)
    (kind : FdKind) (flag : Bool) (posts : List Post) :
    KernelSpares io ⟨bumpFd (putFd k₁ pid b.toInt kind flag) pid b.toInt, b.toInt, none, posts⟩ ↔
      (p.fdTable.has a.toInt = true → a ≠ b → 0 ≤ b.toInt) := by
  rw [kernelSpares_install_iff hs k₁ hhas hflags, failed_toInt_iff, Int.not_lt, forall_prop_of_true hentry,
    forall_prop_of_true hne]

omit hs in
theorem closed_target (existing : FdEntry) (b : Int32) :
    (dropFd (closeExisting io.kernel existing) pid b.toInt).processTable.has pid = true ∧
      (dropFd (closeExisting io.kernel existing) pid b.toInt).cloexec = io.kernel.cloexec := by
  have hhas : io.kernel.processTable.has pid = true := JsMap.has_iff.2 ⟨p, hp⟩
  have hclose : (closeExisting io.kernel existing).processTable = io.kernel.processTable ∧
      (closeExisting io.kernel existing).cloexec = io.kernel.cloexec := by
    unfold closeExisting
    split <;> exact ⟨rfl, rfl⟩
  refine ⟨?_, ?_⟩
  · rw [has_dropFd, hclose.1, hhas]
  · rw [dropFd, cloexec_updateProc, hclose.2]

theorem spares_sysDup2_iff (a b : Int32) :
    KernelSpares io (sysDup2 io.kernel pid p a b) ↔ (p.fdTable.has a.toInt = true → a ≠ b → 0 ≤ b.toInt) := by
  have hhas : io.kernel.processTable.has pid = true := JsMap.has_iff.2 ⟨p, hp⟩
  unfold sysDup2
  by_cases hsame : a = b
  · rw [if_pos hsame]
    exact iff_of_true (fun _ => rfl) fun _ hne => absurd hsame hne
  · rw [if_neg hsame]
    cases hget : p.fdTable.get? a.toInt with
    | none => exact iff_of_true (fun _ => rfl) fun hentry => absurd hentry (not_has_of_get? hget)
    | some entry =>
        have hentry : p.fdTable.has a.toInt = true := JsMap.has_iff.2 ⟨entry, hget⟩
        dsimp only
        cases p.fdTable.get? b.toInt with
        | none => exact kernelSpares_replace_iff hs hentry hsame io.kernel hhas rfl _ _ _
        | some existing =>
            obtain ⟨hhas', hflags'⟩ := closed_target hp existing b
            exact kernelSpares_replace_iff hs hentry hsame _ hhas' hflags' _ _ _

theorem spares_sysDup3_iff (a b c : Int32) (fate : Fate) :
    KernelSpares io (sysDup3 io.kernel pid p a b c fate) ↔ (p.fdTable.has a.toInt = true → a ≠ b → 0 ≤ b.toInt) := by
  have hhas : io.kernel.processTable.has pid = true := JsMap.has_iff.2 ⟨p, hp⟩
  unfold sysDup3
  by_cases hsame : a = b
  · rw [if_pos hsame]
    exact iff_of_true (fun _ => rfl) fun _ hne => absurd hsame hne
  · rw [if_neg hsame]
    cases hget : p.fdTable.get? a.toInt with
    | none => exact iff_of_true (fun _ => rfl) fun hentry => absurd hentry (not_has_of_get? hget)
    | some entry =>
        have hentry : p.fdTable.has a.toInt = true := JsMap.has_iff.2 ⟨entry, hget⟩
        dsimp only
        cases p.fdTable.get? b.toInt with
        | none => exact kernelSpares_replace_iff hs hentry hsame io.kernel hhas rfl _ _ _
        | some existing =>
            obtain ⟨hhas', hflags'⟩ := closed_target hp existing b
            dsimp only
            cases existing.kind with
            | pipe fdEnd off =>
                refine kernelSpares_replace_iff hs hentry hsame
                  (dropFd (request io.kernel (.pipeClose b) fate).1 pid b.toInt) ?_ ?_ _ _ _
                · rw [has_dropFd, has_request, hhas]
                · rw [dropFd, cloexec_updateProc]
                  unfold request
                  split <;> rfl
            | _ => exact kernelSpares_replace_iff hs hentry hsame _ hhas' hflags' _ _ _

theorem spares_sysFcntl_iff (a b c : Int32) :
    KernelSpares io (sysFcntl io.kernel pid p a b c) ↔
      (p.fdTable.has a.toInt = true → b = 0 ∨ b = 1030 → ¬ Failed (p.fdTable.firstFree c.toUInt32.toNat)) := by
  have hhas : io.kernel.processTable.has pid = true := JsMap.has_iff.2 ⟨p, hp⟩
  unfold sysFcntl
  cases hget : p.fdTable.get? a.toInt with
  | none => exact iff_of_true (fun _ => rfl) fun hentry => absurd hentry (not_has_of_get? hget)
  | some entry =>
      have hentry : p.fdTable.has a.toInt = true := JsMap.has_iff.2 ⟨entry, hget⟩
      dsimp only
      by_cases hb : b = 0 ∨ b = 1030
      · rw [if_pos hb]
        unfold dupFrom
        rw [kernelSpares_install_iff hs io.kernel hhas rfl, forall_prop_of_true hentry, forall_prop_of_true hb]
      · rw [if_neg hb]
        refine iff_of_true ?_ fun _ hb' => absurd hb' hb
        by_cases hone : b = 1
        · rw [if_pos hone]
          exact fun _ => rfl
        rw [if_neg hone]
        by_cases htwo : b = 2
        · rw [if_pos htwo]
          exact kernelSpares_of_zero rfl
        rw [if_neg htwo]
        by_cases hthree : b = 3
        · rw [if_pos hthree]
          cases entry.kind <;> exact fun _ => rfl
        · rw [if_neg hthree]
          exact fun _ => rfl

omit hs hp in
/-- A fork from a state with other counters. -/
theorem kernelSpares_fork_iff (k₁ : Kernel.State) (htable : k₁.processTable = io.kernel.processTable)
    (hflags : k₁.cloexec = io.kernel.cloexec) (hvfs : k₁.vfs = io.kernel.vfs) (childPid : ℤ) (posts : List Post) :
    KernelSpares io (if p.wasmMemory then ⟨forkProc k₁ childPid p, childPid, none, posts⟩ else ⟨k₁, -1, none, []⟩) ↔
      ForkFits io.kernel p childPid := by
  unfold ForkFits
  by_cases hmemory : p.wasmMemory = true
  · rw [if_pos hmemory, forall_prop_of_true hmemory]
    refine forall_congr' fun _ => ⟨?_, ?_⟩
    · intro hview
      have hchild := congrArg (fun x => x.tables childPid) hview
      dsimp only [view, forkProc] at hchild
      rw [JsMap.get?_set_self] at hchild
      exact hchild.symm
    · intro hchild
      refine view_congr (fun q => ?_) hflags (congrArg fsView hvfs)
      unfold forkProc
      dsimp only
      rw [JsMap.get?_set, htable]
      split_ifs with hq
      · rw [hq, hchild]
        rfl
      · rfl
  · rw [if_neg hmemory]
    refine iff_of_true (fun _ => ?_) fun h => absurd h hmemory
    exact view_congr (fun q => by rw [htable]) hflags (congrArg fsView hvfs)

omit hs hp in
theorem spares_sysForkSpawn_iff (fate : Fate) :
    KernelSpares io (sysForkSpawn io.kernel pid p fate) ↔ ForkFits io.kernel p (childPidOf io.kernel fate) := by
  unfold sysForkSpawn childPidOf request
  cases hb : io.kernel.bridge with
  | none => exact kernelSpares_fork_iff { io.kernel with nextPid := io.kernel.nextPid + 1 } rfl rfl rfl _ _
  | some b =>
      exact kernelSpares_fork_iff { io.kernel with bridge := some (callBridge b .fork fate).1 } rfl rfl rfl _ _

omit hs hp in
theorem spares_sysForkExecSpawn_iff (a : Int32) :
    KernelSpares io (sysForkExecSpawn io.kernel pid p a) ↔ ForkFits io.kernel p a.toInt := by
  unfold sysForkExecSpawn
  dsimp only
  by_cases hnext : io.kernel.nextPid ≤ a.toInt
  · rw [if_pos hnext]
    exact kernelSpares_fork_iff { io.kernel with nextPid := a.toInt + 1 } rfl rfl rfl _ _
  · rw [if_neg hnext]
    exact kernelSpares_fork_iff io.kernel rfl rfl rfl _ _

theorem spares_sysPipeCreate_iff (fate : Fate) :
    KernelSpares io (sysPipeCreate io.kernel pid fate) ↔
      ∀ resp, (request io.kernel .pipeCreate fate).2 = some resp → resp.err = 0 →
        ¬ Failed ((resp.val.toInt - 100) / 2) := by
  have hhas : (request io.kernel .pipeCreate fate).1.processTable.has pid = true := by
    rw [has_request]
    exact JsMap.has_iff.2 ⟨p, hp⟩
  have hsame : (request io.kernel .pipeCreate fate).1.processTable = io.kernel.processTable ∧
      (request io.kernel .pipeCreate fate).1.cloexec = io.kernel.cloexec := by
    unfold request
    split <;> exact ⟨rfl, rfl⟩
  have hvfs : (request io.kernel .pipeCreate fate).1.vfs = io.kernel.vfs := vfs_request _ _ _
  unfold sysPipeCreate
  revert hhas hsame hvfs
  obtain ⟨k₁, reply⟩ := request io.kernel .pipeCreate fate
  intro hhas hsame hvfs
  have hview : view { io with kernel := k₁ } = view io :=
    view_congr (fun q => by rw [hsame.1]) hsame.2 (congrArg fsView hvfs)
  cases reply with
  | none => exact iff_of_true (fun _ => hview) fun _ habsurd => absurd habsurd.symm (Option.some_ne_none _)
  | some resp =>
      have honce (P : Reply → Prop) : (∀ resp', some resp = some resp' → P resp') ↔ P resp :=
        ⟨fun hall => hall resp rfl, fun hone _ heq => Option.some_inj.1 heq ▸ hone⟩
      dsimp only
      rw [honce]
      by_cases herr : resp.err = 0
      · rw [if_neg (not_not_intro herr), forall_prop_of_true herr]
        have hlonger : io.kernel.cloexec.length ≤
            (putFd k₁ pid resp.val.toInt (.pipe .read resp.r2.toInt) false).cloexec.length := by
          rw [cloexec_putFd, List.length_append, ← hsame.2]
          exact Nat.le_add_right _ _
        have hne := view_ne_of_entry io
          (entryAt_putFd_ne hs (by rw [has_putFd]; exact hhas) hlonger resp.r1.toInt (.pipe .write resp.r2.toInt) false)
        exact ⟨fun hspared hfailed => hne (hspared hfailed), fun hfits hfailed => absurd hfailed hfits⟩
      · rw [if_pos herr]
        exact iff_of_true (fun _ => hview) fun h => absurd h herr

/-- **The calls on descriptors.** -/
theorem kernelSpares_iff (hn : 0 ≤ io.kernel.vfs.nextFd) (call : Kernel.Call) (fate : Fate) :
    KernelSpares io (Kernel.handleSyscall io.kernel pid call fate) ↔ KernelFits io.kernel p fate call := by
  unfold Kernel.handleSyscall KernelFits
  rw [hp]
  cases call with
  | «open» path b c => exact spares_openPath_iff hs hp hn path b c
  | openat path c d => exact spares_openPath_iff hs hp hn path c d
  | fsOpen path b c => exact spares_openPath_iff hs hp hn path b c
  | dup a => exact spares_sysDup_iff hs hp a
  | dup2 a b => exact spares_sysDup2_iff hs hp a b
  | dup3 a b c => exact spares_sysDup3_iff hs hp a b c fate
  | fcntl a b c => exact spares_sysFcntl_iff hs hp a b c
  | forkSpawn => exact spares_sysForkSpawn_iff fate
  | forkExecSpawn a => exact spares_sysForkExecSpawn_iff a
  | pipeCreate => exact spares_sysPipeCreate_iff hs hp fate
  | fsClose a => exact iff_of_true (kernelSpares_of_zero rfl) trivial
  | close a =>
      refine iff_of_true (kernelSpares_of_zero ?_) trivial
      dsimp only
      unfold sysClose
      split
      · rfl
      · split <;> rfl
  | pipeClose a =>
      refine iff_of_true (kernelSpares_of_zero ?_) trivial
      dsimp only
      unfold sysPipeClose
      split
      · rfl
      · split <;> rfl

end Calls

end Kernels

/-! ### Any call -/

/-- If the call fails, nothing that is observed has changed. -/
def ErrorAtomic (s : Syscalls.State) (pid : ℤ) (call : Syscall) : Prop :=
  ∀ n, (Syscalls.handleSyscall s pid call).2 = some n → Failed n →
    view (Syscalls.handleSyscall s pid call).1.io = view s.io

section Switch

variable {s : Syscalls.State} {pid : ℤ} {p : Proc}

/-- What is thrown becomes -1. -/
theorem spares_iff_run (x : Io ℤ) :
    Spares s.io x s.io ↔ (Failed (attempt s x).2 → view (attempt s x).1.io = view s.io) := by
  unfold Spares Ensures attempt
  obtain ⟨r, io⟩ := x.run.run s.io
  cases r with
  | ok n => exact Iff.rfl
  | error e => exact ⟨fun hview _ => hview, fun hview => hview failed_neg_one⟩

theorem forall_result_iff {out : Syscalls.State × ℤ} :
    (∀ n, some out.2 = some n → Failed n → view out.1.io = view s.io) ↔ (Failed out.2 → view out.1.io = view s.io) :=
  ⟨fun hall => hall _ rfl, fun hone _ heq => Option.some_inj.1 heq ▸ hone⟩

theorem quiet_run {x : Io ℤ} (hx : Quiet x) (io : FileIo.State) : view (x.run.run io).2 = view io := by
  have hall := hx io
  unfold Ensures at hall
  revert hall
  obtain ⟨r, io'⟩ := x.run.run io
  intro hall
  cases r with
  | ok n => exact hall
  | error e => exact hall

/-- The calls that touch no file and no descriptor. -/
theorem errorAtomic_of_quiet (hp : s.io.kernel.processTable.get? pid = some p) {call : Syscall}
    (hcall : ∀ c fate, call ≠ .kernel c fate) (hquiet : Quiet (Isolation.body s pid p call)) :
    ErrorAtomic s pid call := by
  intro n _ _
  rw [Isolation.io_handleSyscall hp hcall]
  exact quiet_run hquiet s.io

theorem quiet_body {call : Syscall} (hcall : ∀ a c, call ≠ .file a c) (hother : ∀ c, call ≠ .other c) :
    Quiet (Isolation.body s pid p call) := by
  cases call with
  | file a c => exact absurd rfl (hcall a c)
  | other c => exact absurd rfl (hother c)
  | getcwd a b => exact quiet_ite (quiet_pure _) (quiet_bind (quiet_storeCString pid p _ _) fun _ => quiet_pure _)
  | fsGetcwd a => exact quiet_bind (quiet_storeCString pid p _ _) fun _ => quiet_pure _
  | procWait a b =>
      unfold Isolation.body
      dsimp only
      cases (if 0 < a.toInt then s.exitCodes.get? a.toInt else none) with
      | none => exact quiet_pure _
      | some code => exact quiet_ite (quiet_bind (quiet_storeWord pid p 4 _ _) fun _ => quiet_pure _) (quiet_pure _)
  | kernel | brk | fsChdir | socketOpen | plain => exact quiet_pure _

/-- **A call fails cleanly exactly if it meets the condition.** -/
theorem errorAtomic_iff_of_inv (hi : Isolation.Inv s) (call : Syscall) : ErrorAtomic s pid call ↔ Fits s pid call := by
  unfold Fits
  cases hp : s.io.kernel.processTable.get? pid with
  | none =>
      refine iff_of_true (fun n _ _ => ?_) fun _ habsurd => absurd habsurd.symm (Option.some_ne_none _)
      rw [Isolation.handleSyscall_noProc hp]
  | some p =>
      have honce (P : Proc → Prop) : (∀ p', some p = some p' → P p') ↔ P p :=
        ⟨fun hall => hall p rfl, fun hone _ heq => Option.some_inj.1 heq ▸ hone⟩
      rw [honce]
      -- the remaining calls change nothing that is observed
      have hidle (call : Syscall) (hkernel : ∀ c fate, call ≠ .kernel c fate) (hcall : ∀ a c, call ≠ .file a c)
          (hother : ∀ c, call ≠ .other c) : ErrorAtomic s pid call :=
        errorAtomic_of_quiet hp hkernel (quiet_body hcall hother)
      cases call with
      | kernel call fate =>
          have hone : ErrorAtomic s pid (.kernel call fate) ↔
              KernelSpares s.io (Kernel.handleSyscall s.io.kernel pid call fate) := by
            have hresult : (Syscalls.handleSyscall s pid (.kernel call fate)).2 =
                some (Kernel.handleSyscall s.io.kernel pid call fate).result := by
              unfold Syscalls.handleSyscall
              rw [hp]
            unfold ErrorAtomic KernelSpares
            rw [hresult, Isolation.io_kernelCall hp]
            exact ⟨fun hall => hall _ rfl, fun hone _ heq => Option.some_inj.1 heq ▸ hone⟩
          rw [hone, kernelSpares_iff hi.stored hp (hi.wf.nextFd_nonneg)]
      | file a call =>
          have hone : ErrorAtomic s pid (.file a call) ↔ Spares s.io (fileHandler pid p a call) s.io := by
            have hout : Syscalls.handleSyscall s pid (.file a call) =
                ((attempt s (fileHandler pid p a call)).1, some (attempt s (fileHandler pid p a call)).2) := by
              unfold Syscalls.handleSyscall handleFileCall attempt
              simp only [hp]
              obtain ⟨r, io⟩ := (fileHandler pid p a call).run.run s.io
              cases r <;> rfl
            unfold ErrorAtomic
            rw [hout, spares_iff_run]
            exact forall_result_iff
          rw [hone, spares_fileHandler_iff]
      | other call =>
          have hone : ErrorAtomic s pid (.other call) ↔ Spares s.io (handler s.bootTime pid p call) s.io := by
            have hout : Syscalls.handleSyscall s pid (.other call) =
                ((attempt s (handler s.bootTime pid p call)).1,
                  some (attempt s (handler s.bootTime pid p call)).2) := by
              unfold Syscalls.handleSyscall
              rw [hp]
            unfold ErrorAtomic
            rw [hout, spares_iff_run]
            exact forall_result_iff
          rw [hone, spares_handler_iff]
      | _ =>
          refine iff_of_true (hidle _ (fun _ _ h => ?_) (fun _ _ h => ?_) fun _ h => ?_) trivial
          · cases h
          · cases h
          · cases h

end Switch

/-! ### Runs -/

/-- The states that a run can reach. -/
def Reached (s : Syscalls.State) : Prop :=
  ∃ s₀ tr, Syscalls.Starts s₀ ∧ IsRun Isolation.Step s₀ tr ∧ final s₀ tr = s

theorem inv_of_reached {s : Syscalls.State} (h : Reached s) : Isolation.Inv s := by
  obtain ⟨s₀, tr, hstart, hrun, rfl⟩ := h
  have hkept (s : Syscalls.State) (ev : Syscalls.Event) (s' : Syscalls.State) (hi : Isolation.Inv s)
      (hstep : Isolation.Step s ev s') : Isolation.Inv s' := by
    rw [hstep]
    exact Isolation.inv_after hi ev
  exact (throughout_of_isRun hkept (Isolation.inv_of_starts hstart) hrun).final

/-- **Failing calls.**  In every state that can be reached, a call leaves the descriptors, the files, the namespace,
the positions and the offsets alone if it fails, exactly if it meets the condition. -/
theorem errorAtomic_iff {s : Syscalls.State} (h : Reached s) (pid : ℤ) (call : Syscall) :
    ErrorAtomic s pid call ↔ Fits s pid call :=
  errorAtomic_iff_of_inv (inv_of_reached h) call

theorem reached_shared : Reached Isolation.shared :=
  ⟨Syscalls.booted, trace Syscalls.after Syscalls.booted Isolation.sharing, Syscalls.starts_booted,
    isRun_trace Syscalls.after Syscalls.booted Isolation.sharing, final_trace _ _ _⟩

/-- The position of the file has moved when the store into the memory throws. -/
theorem not_errorAtomic_readNowhere : ¬ ∀ s, Reached s → ∀ pid call, ErrorAtomic s pid call := by
  intro h
  have hview := h _ reached_shared 1 (.file 4 (.read (-16) 2)) (-1) (by decide +kernel) (by decide)
  have hposition := congrArg (fun view => (view.fs.opened 4).map Prod.fst) hview
  exact absurd hposition (by decide +kernel)

/-- Two bytes at the start of a memory of 16 bytes, and behind its end. -/
theorem errorAtomic_iff_readOwn :
    ErrorAtomic Isolation.shared 1 (.file 4 (.read 0 2)) ∧
      ¬ ErrorAtomic Isolation.shared 1 (.file 4 (.read (-16) 2)) := by
  obtain ⟨p, file, hp, hopened, hreads, hread, hinside, houtside⟩ :
      ∃ p file, Isolation.shared.io.kernel.processTable.get? 1 = some p ∧
        openedBy anyHandle Isolation.shared.io p 4 = some (4, file) ∧
        ¬ ReadThrows Isolation.shared.io file (min (unsigned 2) 1048576) ∧
        readFile Isolation.shared.io.kernel.vfs Isolation.shared.io.entropy 4 (min (unsigned 2) 1048576)
          file.position = (2, [47, 102]) ∧
        (placed p (Isolation.shared.io.memory 1) (unsigned 0) [47, 102]).isSome = true ∧
        (placed p (Isolation.shared.io.memory 1) (unsigned (-16)) [47, 102]).isSome = false := by
    refine ⟨_, _, rfl, rfl, ?_, ?_, ?_, ?_⟩ <;> decide +kernel
  have hfits (b : Int32) : Fits Isolation.shared 1 (.file 4 (.read b 2)) ↔
      (placed p (Isolation.shared.io.memory 1) (unsigned b) [47, 102]).isSome = true := by
    simp [Fits, FileFits, ReadFits, hp, hopened, hreads, hread]
  constructor
  · rw [errorAtomic_iff reached_shared, hfits]
    exact hinside
  · rw [errorAtomic_iff reached_shared, hfits, houtside]
    exact Bool.false_ne_true

end ErrorAtomicity
