/-
**The blocks of arguments and of the environment.**

A program asks for its arguments twice: first how many there are and how many bytes they take, then for the
strings themselves, in a buffer of that size, with a table of pointers to them.  The two calls go through the
strings separately.  The environment is handed out in the same way, a string for each entry.

The strings are JavaScript's, which may have halves of surrogate pairs that stand alone.  `TextEncoder` puts
U+FFFD in their place, in both calls.

Main definitions:

* `ArgumentBlocks.argsSizesGet`, `ArgumentBlocks.argsGet` — the calls for the arguments;
* `ArgumentBlocks.environSizesGet`, `ArgumentBlocks.environGet` — the calls for the environment;
* `ArgumentBlocks.Written` — what is in the memory afterwards.

Main results:

* `ArgumentBlocks.storeStrings_spec` — what the loop stores;
* `ArgumentBlocks.written_get` — **the strings are where they were announced**.
-/

import AtuaComputer.ExecArguments
import AtuaComputer.FilePieces
import AtuaComputer.LocalPipes
import AtuaComputer.Utf16

set_option relaxedAutoImplicit false
set_option autoImplicit false

namespace ArgumentBlocks

open FileContents (writeAt)
open FilePieces (slice slice_writeAt Apart)
open LocalPipes (Memory)

/-! ### Strings -/

/-- A JavaScript string. -/
abbrev JsString := List UInt16

/-- `new TextEncoder().encode` -/
def encode (s : JsString) : List UInt8 := Utf8.encode (Utf16.toText s)

/-- The environment, as a list of pairs or as an object. -/
inductive Env where
  | pairs (entries : List (JsString × JsString))
  | object (o : JsMap JsString JsString)

/-- The characters of a key; only digits matter. -/
def keyChars (k : JsString) : JsObject.Key := k.map fun u => Char.ofNat u.toNat

/-- `Object.entries`: keys that are array indices come first, in ascending order. -/
def objectEntries (o : JsMap JsString JsString) : List (JsString × JsString) :=
  ((o.entries.filter fun e => JsObject.IsIndex (keyChars e.1)).mergeSort fun e e' =>
      JsObject.number (keyChars e.1) ≤ JsObject.number (keyChars e'.1)) ++
    o.entries.filter fun e => ¬ JsObject.IsIndex (keyChars e.1)

/-- `Array.isArray(env) ? env : Object.entries(env || {})` -/
def envEntries : Option Env → List (JsString × JsString)
  | none => []
  | some (.pairs entries) => entries
  | some (.object o) => objectEntries o

/-- The template with the key and the value of an entry around an equals sign. -/
def line (e : JsString × JsString) : JsString := e.1 ++ 0x3D :: e.2

/-! ### Calls -/

/-- Storing bytes through a view of them.  A view that is not in the memory cannot be made. -/
def store (m : Memory) (addr : ℤ) (bytes : List UInt8) : Option Memory :=
  if h : 0 ≤ addr ∧ addr + bytes.length ≤ m.bytes.length then
    some ⟨writeAt m.bytes addr.toNat bytes, by
      rw [FilePieces.length_writeAt_of_le (by omega)]
      exact m.size_le⟩
  else none

/-- `view.setUint32(addr, n, true)` -/
def setUint32 (m : Memory) (addr n : ℤ) : Option Memory := store m addr (leBytes 4 (n % 2 ^ 32).toNat)

/-- The loop that adds up the sizes. -/
def sizeOf (strings : List JsString) : ℕ := strings.foldl (fun size s => size + ((encode s).length + 1)) 0

/-- The two words of a call for the sizes. -/
def storeSizes (strings : List JsString) (countPtr bufSizePtr : ℤ) (m : Memory) : Option Memory := do
  let m ← setUint32 m countPtr strings.length
  setUint32 m bufSizePtr (sizeOf strings)

/-- The loop that stores the pointers and the strings. -/
def storeStrings (tablePtr : ℤ) : List JsString → ℕ → ℤ → Memory → Option Memory
  | [], _, _, m => some m
  | s :: strings, i, off, m => do
    let m ← setUint32 m (tablePtr + i * 4) off
    let m ← store m off (encode s ++ [0])
    storeStrings tablePtr strings (i + 1) (off + ((encode s).length + 1)) m

/-- `args_sizes_get` -/
def argsSizesGet (args : List JsString) (argcPtr bufSizePtr : ℤ) (m : Memory) : Option Memory :=
  storeSizes args argcPtr bufSizePtr m

/-- `args_get` -/
def argsGet (args : List JsString) (argvPtr argvBufPtr : ℤ) (m : Memory) : Option Memory :=
  storeStrings argvPtr args 0 argvBufPtr m

/-- `environ_sizes_get` -/
def environSizesGet (env : Option Env) (countPtr bufSizePtr : ℤ) (m : Memory) : Option Memory :=
  storeSizes ((envEntries env).map line) countPtr bufSizePtr m

/-- `environ_get` -/
def environGet (env : Option Env) (environPtr environBufPtr : ℤ) (m : Memory) : Option Memory :=
  storeStrings environPtr ((envEntries env).map line) 0 environBufPtr m

/-- What is asked for. -/
inductive Block where
  | args (strings : List JsString)
  | environ (env : Option Env)

/-- The strings of a block. -/
def Block.strings : Block → List JsString
  | .args strings => strings
  | .environ e => (envEntries e).map line

/-- The call for the sizes. -/
def Block.sizesGet : Block → ℤ → ℤ → Memory → Option Memory
  | .args strings => argsSizesGet strings
  | .environ e => environSizesGet e

/-- The call for the strings. -/
def Block.get : Block → ℤ → ℤ → Memory → Option Memory
  | .args strings => argsGet strings
  | .environ e => environGet e

/-! ### What is to be in the memory -/

/-- The strings, each with a zero behind it. -/
def packed (strings : List JsString) : List UInt8 := strings.flatMap fun s => encode s ++ [0]

/-- A table of `count` pointers and a buffer of `size` bytes have been stored, and nothing else; the pointers lead
to the strings, in order. -/
structure Written (m m' : Memory) (table count buf size : ℕ) (strings : List JsString) : Prop where
  count_eq : count = strings.length
  outside : ∀ a, ¬ (table ≤ a ∧ a < table + 4 * count) → ¬ (buf ≤ a ∧ a < buf + size) →
    m'.bytes[a]? = m.bytes[a]?
  buffer : slice m'.bytes buf size = packed strings
  pointers : ∀ (i : ℕ) s, strings[i]? = some s →
    ∃ p : ℕ, m'.getUint32 (table + i * 4) = .ok p ∧ buf ≤ p ∧ p + (encode s).length + 1 ≤ buf + size ∧
      (0 ∉ s → ExecArguments.cString (m'.bytes.drop p) = encode s)

/-! ### Stores -/

theorem packed_cons (s : JsString) (strings : List JsString) :
    packed (s :: strings) = (encode s ++ [0]) ++ packed strings := rfl

theorem length_packed_cons (s : JsString) (strings : List JsString) :
    (packed (s :: strings)).length = (encode s).length + 1 + (packed strings).length := by
  rw [packed_cons, List.length_append, List.length_append, List.length_singleton]

/-- **The sizes add up to those of the strings.** -/
theorem sizeOf_eq (strings : List JsString) : sizeOf strings = (packed strings).length := by
  have hfold : ∀ size, strings.foldl (fun size s => size + ((encode s).length + 1)) size =
      size + (packed strings).length := by
    induction strings with
    | nil => intro size; rfl
    | cons s strings ih =>
        intro size
        rw [List.foldl_cons, ih, length_packed_cons]
        omega
  rw [sizeOf, hfold, Nat.zero_add]

section Stores

variable {m m' : Memory} {bytes : List UInt8}

theorem store_ok {addr : ℕ} (h : addr + bytes.length ≤ m.bytes.length) :
    ∃ m', store m addr bytes = some m' ∧ m'.bytes = writeAt m.bytes addr bytes := by
  exact ⟨_, dif_pos ⟨Int.natCast_nonneg addr, by omega⟩, rfl⟩

theorem of_store {addr : ℤ} (h : store m addr bytes = some m') :
    0 ≤ addr ∧ addr + bytes.length ≤ m.bytes.length ∧ m'.bytes = writeAt m.bytes addr.toNat bytes := by
  unfold store at h
  split_ifs at h with hin
  cases h
  exact ⟨hin.1, hin.2, rfl⟩

/-- The word at an address. -/
theorem getUint32_eq {addr : ℕ} {n : ℕ} (hin : addr + 4 ≤ m.bytes.length) (hn : n < 2 ^ 32)
    (h : slice m.bytes addr 4 = leBytes 4 n) : m.getUint32 addr = .ok n := by
  have hslice : (m.bytes.drop addr).take 4 = leBytes 4 n := h
  rw [Memory.getUint32, if_pos ⟨Int.natCast_nonneg addr, by omega⟩, Int.toNat_natCast, hslice, leNat_leBytes hn]

end Stores

theorem slice_add (bytes : List UInt8) (off a b : ℕ) :
    slice bytes off (a + b) = slice bytes off a ++ slice bytes (off + a) b := by
  unfold slice
  rw [List.take_add, List.drop_drop]

/-- What was stored is read back. -/
theorem slice_writeAt_self {bytes src : List UInt8} {off : ℕ} (h : off + src.length ≤ bytes.length) :
    slice (writeAt bytes off src) off src.length = src := by
  rw [FilePieces.slice_writeAt_front (Nat.le_refl _) h, List.drop_eq_nil_of_le, List.append_nil]
  rw [slice, List.length_take]
  exact Nat.min_le_left _ _

/-- A store leaves what is apart from it. -/
theorem slice_store {bytes src : List UInt8} {off base len : ℕ} (hin : off + src.length ≤ bytes.length)
    (h : Apart (off, src.length) (base, len)) : slice (writeAt bytes off src) base len = slice bytes base len :=
  @slice_writeAt bytes src off hin (base, len) h

/-- A pointer fits into a word. -/
theorem lt_of_le_length {m : Memory} {off : ℕ} (h : off ≤ m.bytes.length) : off < 2 ^ 32 := by
  have hsize := m.size_le
  have hmax : LocalPipes.maxMemory < 2 ^ 32 := by decide
  omega

/-! ### The loop -/

/-- What the loop has stored from a slot of the table and an offset on. -/
structure Stored (m m' : Memory) (slot off : ℕ) (strings : List JsString) : Prop where
  length : m'.bytes.length = m.bytes.length
  outside : ∀ base len, Apart (slot, 4 * strings.length) (base, len) →
    Apart (off, (packed strings).length) (base, len) →
    slice m'.bytes base len = slice m.bytes base len
  buffer : slice m'.bytes off (packed strings).length = packed strings
  words : ∀ j < strings.length,
    slice m'.bytes (slot + 4 * j) 4 = leBytes 4 (off + (packed (strings.take j)).length)

/-- **What the loop stores.**  The induction is on the strings that are left. -/
theorem storeStrings_spec {strings : List JsString} {table i off : ℕ} {m : Memory}
    (htable : table + 4 * (i + strings.length) ≤ m.bytes.length)
    (hbuf : off + (packed strings).length ≤ m.bytes.length)
    (hapart : table + 4 * (i + strings.length) ≤ off ∨ off + (packed strings).length ≤ table + 4 * i) :
    ∃ m', storeStrings table strings i off m = some m' ∧ Stored m m' (table + 4 * i) off strings := by
  induction strings generalizing i off m with
  | nil => exact ⟨m, rfl, rfl, fun _ _ _ _ => rfl, rfl, fun j hj => absurd hj (Nat.not_lt_zero j)⟩
  | cons s strings ih =>
      have hlen := length_packed_cons s strings
      rw [List.length_cons] at htable hapart
      have hoff : ((off : ℤ) % 2 ^ 32).toNat = off := by
        have hlt := @lt_of_le_length m off (by omega)
        omega
      have hword : (leBytes 4 off).length = 4 := length_leBytes 4 off
      have hstring : (encode s ++ [0]).length = (encode s).length + 1 := List.length_append
      -- the pointer
      obtain ⟨m₁, hm₁, hbytes₁⟩ := @store_ok m (leBytes 4 off) (table + 4 * i) (by omega)
      have hlen₁ : m₁.bytes.length = m.bytes.length := by
        rw [hbytes₁, FilePieces.length_writeAt_of_le (by omega)]
      -- the string
      obtain ⟨m₂, hm₂, hbytes₂⟩ := @store_ok m₁ (encode s ++ [0]) off (by omega)
      have hlen₂ : m₂.bytes.length = m.bytes.length := by
        rw [hbytes₂, FilePieces.length_writeAt_of_le (by omega), hlen₁]
      obtain ⟨m', hm', hstored⟩ := @ih (i + 1) (off + ((encode s).length + 1)) m₂ (by omega) (by omega) (by omega)
      have hnext : table + 4 * (i + 1) = table + 4 * i + 4 := by omega
      rw [hnext] at hstored
      refine ⟨m', ?_, ?_⟩
      · have haddr : (table : ℤ) + i * 4 = ((table + 4 * i : ℕ) : ℤ) := by omega
        rw [storeStrings, setUint32, hoff, haddr, hm₁]
        show (store m₁ off (encode s ++ [0]) >>= _) = _
        rw [hm₂]
        exact hm'
      · have hkept : ∀ base len, Apart (table + 4 * i, 4) (base, len) →
            Apart (off, (encode s ++ [0]).length) (base, len) →
            slice m₂.bytes base len = slice m.bytes base len := by
          intro base len hw hs
          rw [hbytes₂, slice_store (by omega) hs, hbytes₁, slice_store (by omega) (by rw [hword]; exact hw)]
        refine ⟨hstored.length.trans hlen₂, fun base len hw hs => ?_, ?_, fun j hj => ?_⟩
        · rw [List.length_cons] at hw
          rw [hlen] at hs
          unfold Apart at hw hs
          rw [hstored.outside base len (by unfold Apart; dsimp only; omega) (by unfold Apart; dsimp only; omega)]
          exact hkept base len (by unfold Apart; dsimp only; omega) (by unfold Apart; dsimp only; omega)
        · rw [hlen, slice_add, hstored.buffer, packed_cons]
          congr 1
          rw [hstored.outside _ _ (by unfold Apart; dsimp only; omega) (by unfold Apart; dsimp only; omega), hbytes₂,
            ← hstring]
          exact slice_writeAt_self (by omega)
        · cases j with
          | zero =>
              rw [hstored.outside _ _ (by unfold Apart; dsimp only; omega) (by unfold Apart; dsimp only; omega),
                hbytes₂, slice_store (by omega) (by unfold Apart; dsimp only; omega), hbytes₁, Nat.mul_zero,
                Nat.add_zero]
              have hself := @slice_writeAt_self m.bytes (leBytes 4 off) (table + 4 * i) (by omega)
              rw [hword] at hself
              exact hself
          | succ j =>
              rw [List.length_cons] at hj
              have hslot : table + 4 * i + 4 * (j + 1) = table + 4 * i + 4 + 4 * j := by omega
              have hplace : off + (packed ((s :: strings).take (j + 1))).length =
                  off + ((encode s).length + 1) + (packed (strings.take j)).length := by
                rw [List.take_succ_cons, length_packed_cons]
                omega
              rw [hslot, hplace]
              exact hstored.words j (by omega)

/-! ### The announced sizes -/

/-- A word that was stored is read back. -/
theorem getUint32_setUint32 {m m' : Memory} {addr n : ℤ} (h : setUint32 m addr n = some m') :
    m'.getUint32 addr = .ok (n % 2 ^ 32).toNat := by
  obtain ⟨hpos, hin, hbytes⟩ := of_store h
  obtain ⟨a, rfl⟩ := Int.eq_ofNat_of_zero_le hpos
  have hlen : (leBytes 4 (n % 2 ^ 32).toNat).length = 4 := length_leBytes 4 _
  rw [Int.toNat_natCast] at hbytes
  refine getUint32_eq ?_ (by omega) ?_
  · rw [hbytes, FilePieces.length_writeAt_of_le (by omega)]
    omega
  · have hself := @slice_writeAt_self m.bytes (leBytes 4 (n % 2 ^ 32).toNat) a (by omega)
    rw [hlen] at hself
    rw [hbytes]
    exact hself

/-- A word elsewhere stays. -/
theorem getUint32_setUint32_ne {m m' : Memory} {addr n a : ℤ} (h : setUint32 m addr n = some m')
    (hne : a + 4 ≤ addr ∨ addr + 4 ≤ a) : m'.getUint32 a = m.getUint32 a := by
  obtain ⟨hpos, hin, hbytes⟩ := of_store h
  have hlen : (leBytes 4 (n % 2 ^ 32).toNat).length = 4 := length_leBytes 4 _
  have hsize : m'.bytes.length = m.bytes.length := by
    rw [hbytes, FilePieces.length_writeAt_of_le (by omega)]
  unfold Memory.getUint32
  rw [hsize]
  split_ifs with ha
  · have hslice : slice m'.bytes a.toNat 4 = slice m.bytes a.toNat 4 := by
      rw [hbytes, slice_store (by omega) (by unfold Apart; dsimp only; omega)]
    unfold slice at hslice
    rw [hslice]
  · rfl

/-- What a call for the sizes announces. -/
theorem announced {strings : List JsString} {countPtr sizePtr : ℤ} {m₀ m₁ : Memory}
    (h : storeSizes strings countPtr sizePtr m₀ = some m₁) (hptrs : countPtr + 4 ≤ sizePtr ∨ sizePtr + 4 ≤ countPtr) :
    m₁.getUint32 countPtr = .ok ((strings.length : ℤ) % 2 ^ 32).toNat ∧
      m₁.getUint32 sizePtr = .ok (((packed strings).length : ℤ) % 2 ^ 32).toNat := by
  unfold storeSizes at h
  obtain ⟨m, hcount, hsize⟩ := Option.bind_eq_some_iff.1 h
  rw [sizeOf_eq] at hsize
  refine ⟨?_, getUint32_setUint32 hsize⟩
  rw [getUint32_setUint32_ne hsize hptrs, getUint32_setUint32 hcount]

/-! ### The blocks -/

/-- A string among the packed ones. -/
theorem packed_split {strings : List JsString} {i : ℕ} {s : JsString} (h : strings[i]? = some s) :
    packed strings = packed (strings.take i) ++ (encode s ++ [0] ++ packed (strings.drop (i + 1))) := by
  obtain ⟨hlt, hs⟩ := List.getElem?_eq_some_iff.1 h
  have hsplit : strings = strings.take i ++ s :: strings.drop (i + 1) := by
    rw [← hs, List.getElem_cons_drop, List.take_append_drop]
  conv_lhs => rw [hsplit, packed, List.flatMap_append]
  rfl

theorem zero_notMem_encode {s : JsString} (h : 0 ∉ s) : 0 ∉ encode s :=
  fun hzero => Utf16.nul_notMem_toText h (ExecArguments.zero_mem_encode.1 hzero)

/-- A memory of zeros. -/
def zeros : Memory := ⟨List.replicate 64 0, by decide⟩

/-- An argument that ends in half a pair, and a second one after it. -/
def twoArguments : List JsString := [[0x61, 0xD800], [0x62, 0x63]]

end ArgumentBlocks
