/-
**Archives that are never read to an end.**

Nothing in a header is checked, so the place where the next block begins may be in front of the header, and
a block may be read again.  Which block comes next depends on the place alone, not on what has been read
before; so the reader goes on for ever exactly when it comes back to a place where it has been.  Of archives
whose sizes are not negative it reads every block once.  The call stack has no limit here: an engine ends a
reader that meets extended headers for ever with a `RangeError`.

Main definitions:

* `Untar.Place`, `Untar.nextPlace` — where the reader is, and where it is after the next block;
* `Untar.Forward` — the blocks that are met have sizes that are not negative.

Main results:

* `Untar.untarFrom_ne_none` — enough fuel for a walk that stops;
* `Untar.untar_endless_iff` — **the reader goes on for ever if and only if it meets a block again**;
* `Untar.untar_of_forward` — an archive whose sizes are not negative is read to its end.
-/

import AtuaComputer.Untar
import AtuaComputer.Walks
import Mathlib.Data.Finset.Prod
import Mathlib.Data.Int.Interval

set_option relaxedAutoImplicit false
set_option autoImplicit false

namespace Untar

open JsNumber Walks

/-- Where the reader is: between two members, or behind an extended header. -/
structure Place where
  position : Number
  between : Bool
deriving DecidableEq

/-- Behind an extended header the end of the archive is not looked for. -/
def goesOn (buf : List UInt8) (p : Place) : Except Thrown Bool :=
  if p.between then hasNext buf p.position else .ok true

/-- The place behind a block. -/
def Block.place (block : Block) : Place := ⟨block.stream.position, !block.isHeaderFile⟩

/-- The place behind the next block. -/
def nextPlace (buf : List UInt8) (p : Place) : Option Place :=
  if goesOn buf p = .ok true then (readBlock buf ⟨none, p.position⟩).toOption.map Block.place else none

/-- The place behind a block does not depend on the extended headers that have been read. -/
theorem readBlock_global (buf : List UInt8) (global global' : Option (List PaxField)) (pos : Number) :
    (readBlock buf ⟨global, pos⟩).toOption.map Block.place =
      (readBlock buf ⟨global', pos⟩).toOption.map Block.place := by
  unfold readBlock
  dsimp only [bind, Except.bind]
  cases readHeader buf pos with
  | error e => rfl
  | ok result =>
      obtain ⟨header, rest⟩ := result
      dsimp only
      split_ifs
      · rfl
      · cases parsePax (readBuffer buf (plus pos (some 512)) header.size) <;> rfl
      · cases parsePax (readBuffer buf (plus pos (some 512)) header.size) <;> rfl
      · rfl

theorem nextPlace_of_ok {buf : List UInt8} {s : Stream} {block : Block} (between : Bool)
    (hblock : readBlock buf s = .ok block) (hgo : goesOn buf ⟨s.position, between⟩ = .ok true) :
    nextPlace buf ⟨s.position, between⟩ = some block.place := by
  rw [nextPlace, if_pos hgo, readBlock_global buf none s.globalPaxHeader, hblock]
  rfl

theorem nextPlace_of_error {buf : List UInt8} {s : Stream} {e : Thrown} {between : Bool}
    (hblock : readBlock buf s = .error e) : nextPlace buf ⟨s.position, between⟩ = none := by
  unfold nextPlace
  rw [readBlock_global buf none s.globalPaxHeader, hblock]
  split_ifs <;> rfl

/-! ### Reading follows the walk -/

/-- The walk from a place between two members at which there is another one is that from behind an extended
header. -/
theorem walk_between {buf : List UInt8} {pos : Number} (h : hasNext buf pos = .ok true) (n : ℕ) :
    walk (nextPlace buf) ⟨pos, true⟩ (n + 1) = walk (nextPlace buf) ⟨pos, false⟩ (n + 1) := by
  have hsame : nextPlace buf ⟨pos, true⟩ = nextPlace buf ⟨pos, false⟩ := by
    have hgo : goesOn buf ⟨pos, true⟩ = .ok true := h
    have hbehind : goesOn buf ⟨pos, false⟩ = .ok true := rfl
    rw [nextPlace, nextPlace, if_pos hgo, if_pos hbehind]
  rw [walk_succ', walk_succ', hsame]

/-- What `_readNextFile` returns is at a later place of the walk, and it throws only where the walk stops. -/
theorem readNextFile_walk (buf : List UInt8) (fuel : ℕ) : ∀ s : Stream,
    (∀ file s', readNextFile buf fuel s = some (.ok (file, s')) →
      ∃ n, walk (nextPlace buf) ⟨s.position, false⟩ (n + 1) = some ⟨s'.position, true⟩) ∧
    ∀ e, readNextFile buf fuel s = some (.error e) → ∃ n, walk (nextPlace buf) ⟨s.position, false⟩ n = none := by
  induction fuel with
  | zero =>
      intro s
      exact ⟨fun _ _ h => absurd h.symm (Option.some_ne_none _), fun _ h => absurd h.symm (Option.some_ne_none _)⟩
  | succ fuel ih =>
      intro s
      rw [readNextFile]
      cases hblock : readBlock buf s with
      | error e =>
          refine ⟨fun file s' h => ?_, fun _ _ => ⟨1, ?_⟩⟩
          · rw [Option.some_inj] at h
            cases h
          · rw [walk_succ', nextPlace_of_error hblock, Option.bind_none]
      | ok block =>
          have hstep := nextPlace_of_ok false hblock rfl
          have hfront (n : ℕ) : walk (nextPlace buf) ⟨s.position, false⟩ (n + 1) =
              walk (nextPlace buf) block.place n := by
            rw [walk_succ', hstep, Option.bind_some]
          dsimp only
          -- behind an extended header the recursive call goes on from the next place
          by_cases hheader : block.isHeaderFile = true
          · have hplace : block.place = ⟨block.stream.position, false⟩ := by simp [Block.place, hheader]
            rw [if_pos hheader]
            obtain ⟨hok, herror⟩ := ih block.stream
            rw [← hplace] at hok herror
            cases hrest : readNextFile buf fuel block.stream with
            | none =>
                exact ⟨fun _ _ h => absurd h.symm (Option.some_ne_none _),
                  fun _ h => absurd h.symm (Option.some_ne_none _)⟩
            | some result =>
                rw [Option.map_some]
                cases result with
                | error e =>
                    refine ⟨fun file s' h => ?_, fun _ _ => ?_⟩
                    · rw [Option.some_inj] at h
                      cases h
                    · obtain ⟨n, hn⟩ := herror e hrest
                      exact ⟨n + 1, by rw [hfront, hn]⟩
                | ok found =>
                    obtain ⟨file₀, s₀⟩ := found
                    refine ⟨fun file s' h => ?_, fun e h => ?_⟩
                    · obtain ⟨n, hn⟩ := hok file₀ s₀ hrest
                      rw [Option.some_inj] at h
                      cases h
                      exact ⟨n + 1, by rw [hfront, hn]⟩
                    · rw [Option.some_inj] at h
                      cases h
          · have hplace : block.place = ⟨block.stream.position, true⟩ := by simp [Block.place, hheader]
            rw [if_neg hheader]
            refine ⟨fun file s' h => ⟨0, ?_⟩, fun e h => ?_⟩
            · rw [Option.some_inj] at h
              cases h
              rw [hfront, walk_zero, hplace]
            · rw [Option.some_inj] at h
              cases h

/-- What has been read when `untar` returns or throws: the walk has stopped. -/
theorem walk_of_untarFrom (buf : List UInt8) (fuel : ℕ) : ∀ s result, untarFrom buf fuel s = some result →
    ∃ n, walk (nextPlace buf) ⟨s.position, true⟩ n = none := by
  induction fuel with
  | zero =>
      intro s result h
      exact absurd h.symm (Option.some_ne_none _)
  | succ fuel ih =>
      intro s result h
      have hstop (hgo : hasNext buf s.position ≠ .ok true) : walk (nextPlace buf) ⟨s.position, true⟩ 1 = none := by
        have hend : ¬ goesOn buf ⟨s.position, true⟩ = .ok true := hgo
        rw [walk_succ', nextPlace, if_neg hend, Option.bind_none]
      rw [untarFrom] at h
      cases hnext : hasNext buf s.position with
      | error e => exact ⟨1, hstop (by rw [hnext]; exact fun heq => by cases heq)⟩
      | ok another =>
          cases another with
          | false => exact ⟨1, hstop (by rw [hnext]; exact fun heq => by cases heq)⟩
          | true =>
              rw [hnext] at h
              dsimp only at h
              obtain ⟨hok, herror⟩ := readNextFile_walk buf fuel s
              cases hread : readNextFile buf fuel s with
              | none =>
                  rw [hread] at h
                  exact absurd h.symm (Option.some_ne_none _)
              | some found =>
                  cases found with
                  | error e =>
                      obtain ⟨n, hn⟩ := herror e hread
                      refine ⟨n + 1, ?_⟩
                      rw [walk_between hnext]
                      exact walk_eq_none_of_le (Nat.le_succ n) hn
                  | ok pair =>
                      obtain ⟨file, s'⟩ := pair
                      obtain ⟨n, hn⟩ := hok file s' hread
                      rw [hread] at h
                      obtain ⟨rest, hrest, -⟩ := Option.map_eq_some_iff.1 h
                      obtain ⟨m, hm⟩ := ih s' rest hrest
                      refine ⟨n + 1 + m, ?_⟩
                      rw [walk_add, walk_between hnext, hn, Option.bind_some, hm]

/-! ### Enough fuel -/

theorem readNextFile_ne_none (buf : List UInt8) (k : ℕ) : ∀ s : Stream,
    walk (nextPlace buf) ⟨s.position, false⟩ k = none → ∀ fuel, k ≤ fuel → readNextFile buf fuel s ≠ none := by
  induction k with
  | zero =>
      intro s h
      exact absurd h (Option.some_ne_none _)
  | succ k ih =>
      intro s h fuel hfuel
      obtain ⟨fuel, rfl⟩ : ∃ f, fuel = f + 1 := ⟨fuel - 1, by omega⟩
      rw [readNextFile]
      cases hblock : readBlock buf s with
      | error e => exact Option.some_ne_none _
      | ok block =>
          rw [walk_succ', nextPlace_of_ok false hblock rfl, Option.bind_some] at h
          dsimp only
          by_cases hheader : block.isHeaderFile = true
          · have hplace : block.place = ⟨block.stream.position, false⟩ := by simp [Block.place, hheader]
            rw [hplace] at h
            rw [if_pos hheader, ne_eq, Option.map_eq_none_iff]
            exact ih block.stream h fuel (by omega)
          · rw [if_neg hheader]
            exact Option.some_ne_none _

/-- **With more fuel than the walk has steps there is a result.** -/
theorem untarFrom_ne_none (buf : List UInt8) (k : ℕ) : ∀ s : Stream,
    walk (nextPlace buf) ⟨s.position, true⟩ k = none → ∀ fuel, k < fuel → untarFrom buf fuel s ≠ none := by
  induction k with
  | zero =>
      intro s h
      exact absurd h (Option.some_ne_none _)
  | succ k ih =>
      intro s h fuel hfuel
      obtain ⟨fuel, rfl⟩ : ∃ f, fuel = f + 1 := ⟨fuel - 1, by omega⟩
      rw [untarFrom]
      cases hnext : hasNext buf s.position with
      | error e => exact Option.some_ne_none _
      | ok another =>
          cases another with
          | false => exact Option.some_ne_none _
          | true =>
              rw [walk_between hnext] at h
              dsimp only
              cases hread : readNextFile buf fuel s with
              | none => exact absurd hread (readNextFile_ne_none buf (k + 1) s h fuel (by omega))
              | some found =>
                  cases found with
                  | error e => exact Option.some_ne_none _
                  | ok pair =>
                      obtain ⟨file, s'⟩ := pair
                      obtain ⟨n, hn⟩ := (readNextFile_walk buf fuel s).1 file s' hread
                      have hrest : walk (nextPlace buf) ⟨s'.position, true⟩ k = none := by
                        have hlate := walk_eq_none_of_le (Nat.le_add_left (k + 1) n) h
                        have hsum : n + (k + 1) = n + 1 + k := by omega
                        rwa [hsum, walk_add, hn, Option.bind_some] at hlate
                      rw [ne_eq, Option.map_eq_none_iff]
                      exact ih s' hrest fuel (by omega)

/-! ### Finitely many places -/

/-- The places at which there is a block: those inside the archive, and `NaN`. -/
def places (buf : List UInt8) : Finset Place :=
  ((insert none ((Finset.range buf.length).image fun n : ℕ => some (n : ℤ))) ×ˢ {true, false}).image
    fun p => ⟨p.1, p.2⟩

/-- A header has a first byte. -/
theorem readBlock_of_getUint8 {buf : List UInt8} {s : Stream} {e : Thrown} (h : getUint8 buf s.position = .error e) :
    readBlock buf s = .error e := by
  simp [readBlock, readHeader, readString, readUnits, h, bind, Except.bind, StateT.bind]

theorem mem_places {buf : List UInt8} {p q : Place} (h : nextPlace buf p = some q) : p ∈ places buf := by
  obtain ⟨position, between⟩ := p
  have hposition : position ∈ insert none ((Finset.range buf.length).image fun n : ℕ => some (n : ℤ)) := by
    cases position with
    | none => exact Finset.mem_insert_self _ _
    | some i =>
        refine Finset.mem_insert_of_mem (Finset.mem_image.2 ⟨i.toNat, ?_⟩)
        have hbyte : ∃ b, getUint8 buf (some i) = .ok b := by
          cases hget : getUint8 buf (some i) with
          | ok b => exact ⟨b, rfl⟩
          | error e =>
              have hblock : readBlock buf ⟨none, some i⟩ = .error e := readBlock_of_getUint8 hget
              rw [nextPlace, hblock] at h
              split_ifs at h
              cases h
        obtain ⟨b, hb⟩ := hbyte
        unfold getUint8 at hb
        rw [Option.getD_some] at hb
        split_ifs at hb with hneg
        have hlt : i.toNat < buf.length := by
          by_contra hge
          rw [List.getElem?_eq_none (by omega)] at hb
          cases hb
        exact ⟨Finset.mem_range.2 hlt, congrArg some (by omega)⟩
  refine Finset.mem_image.2 ⟨(position, between), Finset.mem_product.2 ⟨hposition, ?_⟩, rfl⟩
  cases between <;> simp

/-- **The reader goes on for ever if and only if it meets a block again.** -/
theorem untar_endless_iff (buf : List UInt8) :
    (∀ fuel, untar fuel buf = none) ↔ Returns (nextPlace buf) ⟨some 0, true⟩ := by
  rw [← endless_iff_returns fun p q => mem_places]
  constructor
  · intro h n hn
    exact untarFrom_ne_none buf n ⟨none, some 0⟩ hn (n + 1) (Nat.lt_succ_self n) (h _)
  · intro h fuel
    cases hresult : untar fuel buf with
    | none => rfl
    | some result =>
        obtain ⟨n, hn⟩ := walk_of_untarFrom buf fuel _ result hresult
        exact absurd hn (h n)

/-- A header whose size is minus one block, and some zero bytes. -/
def backwards : List UInt8 :=
  [0x61] ++ List.replicate 123 0 ++ [0x2D, 0x31, 0x30, 0x30, 0x30] ++ List.replicate 27 0 ++ [0x30] ++
    List.replicate 363 0

example : nextPlace backwards ⟨some 0, true⟩ = some ⟨some 0, true⟩ := by decide +kernel

/-- The blocks that are met have sizes that are not negative. -/
def Forward (buf : List UInt8) : Prop :=
  ∀ n p, walk (nextPlace buf) ⟨some 0, true⟩ n = some p → ∀ header position,
    readHeader buf p.position = .ok (header, position) → ∃ size : ℕ, header.size = some (size : ℤ)

/-- The place behind a block is that behind its bytes. -/
theorem place_of_readBlock {buf : List UInt8} {s : Stream} {block : Block} (h : readBlock buf s = .ok block) :
    ∃ header position, readHeader buf s.position = .ok (header, position) ∧
      block.place.position = dataEnd (plus s.position (some 512)) header.size := by
  unfold readBlock at h
  dsimp only [bind, Except.bind] at h
  cases hheader : readHeader buf s.position with
  | error e =>
      rw [hheader] at h
      cases h
  | ok result =>
      obtain ⟨header, position⟩ := result
      refine ⟨header, position, rfl, ?_⟩
      rw [hheader] at h
      dsimp only at h
      split_ifs at h
      · cases h
        rfl
      · cases hfields : parsePax (readBuffer buf (plus s.position (some 512)) header.size) with
        | error e =>
            rw [hfields] at h
            cases h
        | ok fields =>
            rw [hfields] at h
            cases h
            rfl
      · cases hfields : parsePax (readBuffer buf (plus s.position (some 512)) header.size) with
        | error e =>
            rw [hfields] at h
            cases h
        | ok fields =>
            rw [hfields] at h
            cases h
            rfl
      · cases h
        rfl

/-- A size that is not negative leads past the header. -/
theorem lt_dataEnd (i : ℤ) (size : ℕ) :
    ∃ j : ℤ, dataEnd (plus (some i) (some 512)) (some (size : ℤ)) = some j ∧ i < j := by
  have hmod : (size : ℤ).tmod 512 = ((size % 512 : ℕ) : ℤ) := by exact_mod_cast (Int.ofNat_tmod size 512).symm
  rw [plus_some]
  refine ⟨_, rfl, ?_⟩
  rw [hmod]
  split_ifs <;> omega

/-- A step of such a walk goes forward. -/
theorem Forward.step {buf : List UInt8} (h : Forward buf) {n : ℕ} {p q : Place} {i : ℤ}
    (hwalk : walk (nextPlace buf) ⟨some 0, true⟩ n = some p) (hp : p.position = some i)
    (hstep : nextPlace buf p = some q) : ∃ j, q.position = some j ∧ i < j := by
  unfold nextPlace at hstep
  split_ifs at hstep with hgo
  cases hblock : readBlock buf ⟨none, p.position⟩ with
  | error e =>
      rw [hblock] at hstep
      cases hstep
  | ok block =>
      rw [hblock] at hstep
      cases hstep
      obtain ⟨header, position, hheader, hplace⟩ := place_of_readBlock hblock
      obtain ⟨size, hsize⟩ := h n p hwalk header position hheader
      rw [hplace, hsize]
      dsimp only
      rw [hp]
      exact lt_dataEnd i size

/-- Its places are numbers. -/
theorem Forward.position {buf : List UInt8} (h : Forward buf) (n : ℕ) : ∀ p,
    walk (nextPlace buf) ⟨some 0, true⟩ n = some p → ∃ i, p.position = some i := by
  induction n with
  | zero =>
      intro p hp
      exact ⟨0, by rw [← Option.some_inj.1 hp]⟩
  | succ n ih =>
      intro q hq
      rw [walk_succ] at hq
      obtain ⟨p, hp, hstep⟩ := Option.bind_eq_some_iff.1 hq
      obtain ⟨i, hi⟩ := ih p hp
      obtain ⟨j, hj, -⟩ := h.step hp hi hstep
      exact ⟨j, hj⟩

/-- **An archive whose sizes are not negative is read to its end.** -/
theorem untar_of_forward {buf : List UInt8} (h : Forward buf) : ∃ fuel result, untar fuel buf = some result := by
  have hreturns : ¬ Returns (nextPlace buf) ⟨some 0, true⟩ := by
    refine not_returns_of_growing (fun p => p.position.getD 0) fun n p q hwalk hstep => ?_
    obtain ⟨i, hi⟩ := h.position n p hwalk
    obtain ⟨j, hj, hlt⟩ := h.step hwalk hi hstep
    rw [hi, hj]
    exact hlt
  have hstops : ∃ n, walk (nextPlace buf) ⟨some 0, true⟩ n = none := by
    by_contra hall
    exact hreturns ((endless_iff_returns fun p q => mem_places).1 fun n hn => hall ⟨n, hn⟩)
  obtain ⟨n, hn⟩ := hstops
  exact ⟨n + 1, Option.ne_none_iff_exists'.1 (untarFrom_ne_none buf n ⟨none, some 0⟩ hn (n + 1) (Nat.lt_succ_self n))⟩

end Untar
