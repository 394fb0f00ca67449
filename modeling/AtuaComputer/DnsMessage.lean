/-
**Messages of the domain name system.**

A message begins with twelve bytes: a number, flags, and how many entries each of its four sections has.  The
sections follow, questions first, then three kinds of resource records.  A name is a list of labels, each behind
its length, and ends with the empty label or with a pointer to the place in the message where it goes on.

Main definitions:

* `DnsMessage.Name`, `DnsMessage.Question`, `DnsMessage.Record`, `DnsMessage.Message`;
* `DnsMessage.readName`, `DnsMessage.readQuestion`, `DnsMessage.readRecord`, `DnsMessage.decode` — readers;
* `DnsMessage.expand` — the labels of a name in a message;
* `DnsMessage.Reads` — some bytes are read as a value, whatever comes after them.

Main results:

* `DnsMessage.reads_of_readName`, `DnsMessage.reads_of_readQuestion` — what was read is read again elsewhere;
* `DnsMessage.length_readMany` — a section has as many entries as were asked for.
-/

import Mathlib.Data.List.Basic

set_option relaxedAutoImplicit false
set_option autoImplicit false

namespace DnsMessage

/-! ### Messages -/

/-- A name: labels, and where it goes on if it does not end there. -/
structure Name where
  labels : List (List UInt8)
  pointer : Option ℕ
deriving DecidableEq

structure Question where
  name : Name
  qtype : ℕ
  qclass : ℕ
deriving DecidableEq

/-- A resource record. -/
structure Record where
  name : Name
  type : ℕ
  rclass : ℕ
  ttl : ℕ
  data : List UInt8
deriving DecidableEq

structure Message where
  id : ℕ
  flags : ℕ
  questions : List Question
  answers : List Record
  authority : List Record
  additional : List Record
deriving DecidableEq

/-! ### Reading -/

/-- A number of two bytes, the most significant one first. -/
def word (hi lo : UInt8) : ℕ := 256 * hi.toNat + lo.toNat

/-- Reading a name, in a number of steps. -/
def readNameFuel : ℕ → List UInt8 → Option (Name × List UInt8)
  | 0, _ => none
  | _ + 1, [] => none
  | fuel + 1, len :: rest =>
    if len = 0 then some (⟨[], none⟩, rest)
    else if len.toNat ≤ 63 then
      if len.toNat ≤ rest.length then
        (readNameFuel fuel (rest.drop len.toNat)).map fun (n, after) =>
          (⟨rest.take len.toNat :: n.labels, n.pointer⟩, after)
      else none
    else if 192 ≤ len.toNat then
      rest.head?.map fun lo => (⟨[], some (256 * (len.toNat - 192) + lo.toNat)⟩, rest.tail)
    else none

/-- Every step takes a byte. -/
def readName (bytes : List UInt8) : Option (Name × List UInt8) := readNameFuel bytes.length bytes

def readQuestion (bytes : List UInt8) : Option (Question × List UInt8) :=
  match readName bytes with
  | some (name, t0 :: t1 :: c0 :: c1 :: rest) => some (⟨name, word t0 t1, word c0 c1⟩, rest)
  | _ => none

def readRecord (bytes : List UInt8) : Option (Record × List UInt8) :=
  match readName bytes with
  | some (name, t0 :: t1 :: c0 :: c1 :: l0 :: l1 :: l2 :: l3 :: d0 :: d1 :: rest) =>
    if word d0 d1 ≤ rest.length then
      some (⟨name, word t0 t1, word c0 c1, 65536 * word l0 l1 + word l2 l3, rest.take (word d0 d1)⟩,
        rest.drop (word d0 d1))
    else none
  | _ => none

section Many

variable {α : Type} (read : List UInt8 → Option (α × List UInt8))

/-- Reading the entries of a section. -/
def readMany : ℕ → List UInt8 → Option (List α × List UInt8)
  | 0, bytes => some ([], bytes)
  | n + 1, bytes => do
    let (a, bytes) ← read bytes
    let (as, bytes) ← readMany n bytes
    return (a :: as, bytes)

end Many

/-- Reading a message.  Nothing may be left. -/
def decode : List UInt8 → Option Message
  | i0 :: i1 :: f0 :: f1 :: q0 :: q1 :: a0 :: a1 :: n0 :: n1 :: r0 :: r1 :: body => do
    let (questions, body) ← readMany readQuestion (word q0 q1) body
    let (answers, body) ← readMany readRecord (word a0 a1) body
    let (authority, body) ← readMany readRecord (word n0 n1) body
    let (additional, body) ← readMany readRecord (word r0 r1) body
    if body = [] then some ⟨word i0 i1, word f0 f1, questions, answers, authority, additional⟩ else none
  | _ => none

/-- The labels of a name in a message, along a number of pointers. -/
def expand (message : List UInt8) : ℕ → Name → Option (List (List UInt8))
  | _, ⟨labels, none⟩ => some labels
  | 0, ⟨_, some _⟩ => none
  | depth + 1, ⟨labels, some place⟩ => do
    let (name, _) ← readName (message.drop place)
    let rest ← expand message depth name
    return labels ++ rest

/-! ### What is read -/

/-- Some bytes are read as a value, whatever comes after them. -/
def Reads {α : Type} (read : List UInt8 → Option (α × List UInt8)) (a : α) (front : List UInt8) : Prop :=
  ∀ rest, read (front ++ rest) = some (a, rest)

/-- A name that was read is read again elsewhere. -/
theorem reads_of_readNameFuel {fuel : ℕ} {bytes rest : List UInt8} {n : Name}
    (h : readNameFuel fuel bytes = some (n, rest)) :
    ∃ front, bytes = front ++ rest ∧
      ∀ fuel' rest', front.length ≤ fuel' → readNameFuel fuel' (front ++ rest') = some (n, rest') := by
  induction fuel generalizing bytes rest n with
  | zero => cases h
  | succ fuel ih =>
      cases bytes with
      | nil => cases h
      | cons len bytes =>
          rw [readNameFuel] at h
          split_ifs at h with hzero hlabel hfits hpointer
          · -- the end of the name
            cases h
            refine ⟨[len], rfl, fun fuel' rest' hfuel => ?_⟩
            obtain ⟨k, rfl⟩ := Nat.exists_eq_succ_of_ne_zero (Nat.ne_of_gt hfuel)
            rw [List.singleton_append, readNameFuel, if_pos hzero]
          · -- a label
            obtain ⟨⟨n', after⟩, hread, hpair⟩ := Option.map_eq_some_iff.1 h
            cases hpair
            obtain ⟨front, hbytes, hagain⟩ := ih hread
            refine ⟨len :: (bytes.take len.toNat ++ front), ?_, fun fuel' rest' hfuel => ?_⟩
            · rw [List.cons_append, List.append_assoc, ← hbytes, List.take_append_drop]
            · have htake : (bytes.take len.toNat).length = len.toNat := by
                rw [List.length_take]
                omega
              rw [List.length_cons, List.length_append, htake] at hfuel
              have hpos := Nat.lt_of_lt_of_le (Nat.succ_pos _) hfuel
              obtain ⟨k, rfl⟩ := Nat.exists_eq_succ_of_ne_zero (Nat.ne_of_gt hpos)
              have hdrop : (bytes.take len.toNat ++ (front ++ rest')).drop len.toNat = front ++ rest' :=
                List.drop_left' htake
              have hfront : (bytes.take len.toNat ++ (front ++ rest')).take len.toNat = bytes.take len.toNat :=
                List.take_left' htake
              rw [List.cons_append, List.append_assoc, readNameFuel, if_neg hzero, if_pos hlabel, if_pos (by
                rw [List.length_append, htake]
                omega), hdrop, hfront, hagain k rest' (by omega)]
              rfl
          · -- a pointer
            obtain ⟨lo, hlo, hpair⟩ := Option.map_eq_some_iff.1 h
            cases hpair
            obtain ⟨rest'', rfl⟩ := List.head?_eq_some_iff.1 hlo
            refine ⟨[len, lo], rfl, fun fuel' rest' hfuel => ?_⟩
            obtain ⟨k, rfl⟩ := Nat.exists_eq_succ_of_ne_zero (Nat.ne_of_gt (Nat.lt_of_lt_of_le (Nat.succ_pos _) hfuel))
            rw [List.cons_append, readNameFuel, if_neg hzero, if_neg hlabel, if_pos hpointer]
            rfl

/-- **A name that was read is read again elsewhere.** -/
theorem reads_of_readName {bytes rest : List UInt8} {n : Name} (h : readName bytes = some (n, rest)) :
    ∃ front, bytes = front ++ rest ∧ Reads readName n front := by
  obtain ⟨front, hbytes, hread⟩ := reads_of_readNameFuel h
  refine ⟨front, hbytes, fun rest' => hread _ rest' ?_⟩
  rw [List.length_append]
  exact Nat.le_add_right _ _

/-- **So is a question.** -/
theorem reads_of_readQuestion {bytes rest : List UInt8} {q : Question} (h : readQuestion bytes = some (q, rest)) :
    ∃ front, bytes = front ++ rest ∧ Reads readQuestion q front := by
  unfold readQuestion at h
  split at h
  · rename_i name t0 t1 c0 c1 rest' hname
    cases h
    obtain ⟨front, hbytes, hread⟩ := reads_of_readName hname
    refine ⟨front ++ [t0, t1, c0, c1], ?_, fun rest'' => ?_⟩
    · rw [hbytes, List.append_assoc]
      rfl
    · rw [List.append_assoc, readQuestion, hread]
      rfl
  · cases h

/-- **A section has as many entries as were asked for.** -/
theorem length_readMany {α : Type} {read : List UInt8 → Option (α × List UInt8)} {n : ℕ} {bytes rest : List UInt8}
    {as : List α} (h : readMany read n bytes = some (as, rest)) : as.length = n := by
  induction n generalizing bytes as with
  | zero =>
      cases h
      rfl
  | succ n ih =>
      rw [readMany] at h
      obtain ⟨p, -, h⟩ := Option.bind_eq_some_iff.1 h
      obtain ⟨p', hmany, h⟩ := Option.bind_eq_some_iff.1 h
      cases h
      rw [List.length_cons, ih hmany]

/-- A question begins with its name. -/
theorem readName_of_readQuestion {bytes rest : List UInt8} {q : Question} (h : readQuestion bytes = some (q, rest)) :
    ∃ after, readName bytes = some (q.name, after) := by
  unfold readQuestion at h
  split at h
  · rename_i hname
    cases h
    exact ⟨_, hname⟩
  · cases h

/-- A pointer to a name that ends. -/
theorem expand_pointer {message rest : List UInt8} {place : ℕ} {n : Name} (hn : n.pointer = none)
    (h : readName (message.drop place) = some (n, rest)) : expand message 1 ⟨[], some place⟩ = some n.labels := by
  obtain ⟨labels, pointer⟩ := n
  obtain rfl : pointer = none := hn
  rw [expand, h]
  rfl

/-- **A message of one question and some answers.** -/
theorem decode_oneQuestion {q : Question} {front tail : List UInt8} {answers : List Record}
    {i0 i1 f0 f1 q0 q1 a0 a1 n0 n1 r0 r1 : UInt8} (hq : Reads readQuestion q front) (hquestions : word q0 q1 = 1)
    (hanswers : readMany readRecord (word a0 a1) tail = some (answers, [])) (hauthority : word n0 n1 = 0)
    (hadditional : word r0 r1 = 0) :
    decode (i0 :: i1 :: f0 :: f1 :: q0 :: q1 :: a0 :: a1 :: n0 :: n1 :: r0 :: r1 :: (front ++ tail)) =
      some ⟨word i0 i1, word f0 f1, [q], answers, [], []⟩ := by
  have hread : readMany readQuestion 1 (front ++ tail) = some ([q], tail) := by
    rw [readMany, hq tail]
    rfl
  unfold decode
  dsimp only
  rw [hquestions, hauthority, hadditional, hread]
  show (readMany readRecord (word a0 a1) tail).bind _ = _
  rw [hanswers]
  rfl

end DnsMessage
