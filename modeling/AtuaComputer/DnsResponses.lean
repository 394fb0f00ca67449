/-
**Answers to DNS queries.**

The main thread answers the queries that a guest sends to a name server.  The answer is built from the query: the
header is copied and some of its bytes are changed, the question is copied up to its end, and a record is put
behind it if there is an address.  The numbers of questions, of authority records and of additional records are
those of the query, whatever of it was copied.

Main definitions:

* `DnsResponses.parseDnsQuery`, `DnsResponses.buildDnsResponse` — reading a query and answering it;
* `DnsResponses.Answers` — what an answer is to be;
* `DnsResponses.OneQuestion` — the condition.

Main results:

* `DnsResponses.buildDnsResponse_eq` — the builder reads nothing outside of the query;
* `DnsResponses.answers_iff` — **which queries are answered as they should**.
-/

import AtuaComputer.DnsMessage
import AtuaComputer.JsObject
import AtuaComputer.Utf8

set_option relaxedAutoImplicit false
set_option autoImplicit false

namespace DnsResponses

open DnsMessage

/-! ### Addresses -/

/-- The decimal digits of a byte. -/
def decimal (b : UInt8) : List Char := Nat.toDigits 10 b.toNat

/-- Four numbers with dots between them. -/
def dotted (a b c d : UInt8) : List Char :=
  List.intercalate ['.'] [decimal a, decimal b, decimal c, decimal d]

/-- The text of an IPv4 address. -/
structure Ipv4 where
  text : List Char
  bytes : UInt8 × UInt8 × UInt8 × UInt8
  text_eq : text = dotted bytes.1 bytes.2.1 bytes.2.2.1 bytes.2.2.2

/-- `ip.split('.').map(Number)`; the parts have digits only. -/
def ipParts (ip : Ipv4) : List ℕ := (ip.text.splitOn '.').map JsObject.number

/-! ### Queries -/

/-- The loop over the labels, with its rounds; `none` is the return in the middle. -/
def parseLabels (buf : List UInt8) : ℕ → ℕ → Option (List (List UInt8) × ℕ)
  | 0, offset => some ([], offset)
  | rounds + 1, offset =>
    match buf[offset]? with
    | none => some ([], offset)
    | some len =>
      if len = 0 then some ([], offset)
      else if 63 < len.toNat then none
      else if buf.length < offset + 1 + len.toNat then none
      else
        (parseLabels buf rounds (offset + 1 + len.toNat)).map fun (labels, last) =>
          ((buf.drop (offset + 1)).take len.toNat :: labels, last)

/-- What is read of a query. -/
structure Parsed where
  hostname : List Char
  qtype : ℕ

/-- `_parseDnsQuery` -/
def parseDnsQuery (buf : List UInt8) : Option Parsed :=
  if buf.length < 17 then none
  else
    (parseLabels buf buf.length 12).map fun (labels, last) =>
      let offset := last + 1
      { hostname := List.intercalate ['.'] (labels.map Utf8.decode)
        qtype := if offset + 1 < buf.length then word (buf.getD offset 0) (buf.getD (offset + 1) 0) else 1 }

/-! ### Answers -/

/-- Finding the end of the question, with the rounds of the loop; `none` is a read outside of the query. -/
def findEnd (queryBuf : List UInt8) : ℕ → ℕ → Option ℕ
  | 0, qEnd => some qEnd
  | rounds + 1, qEnd =>
    if qEnd < queryBuf.length then
      match queryBuf[qEnd]? with
      | none => none
      | some len => if len = 0 then some qEnd else findEnd queryBuf rounds (qEnd + (len.toNat + 1))
    else some qEnd

/-- The copy of the header, with the bytes that are changed. -/
def responseHeader (queryBuf : List UInt8) (ip : Option Ipv4) (nxdomain : Bool) : List UInt8 :=
  let header := queryBuf.take 12
  let header := header.set 2 0x81
  let header := header.set 3 (if nxdomain then 0x83 else 0x80)
  let header := header.set 6 0
  header.set 7 (if ip.isSome then 1 else 0)

/-- The record: a pointer to the name, and type, class, time and length as they are for an address. -/
def answerRecord (ip : Ipv4) : List UInt8 :=
  [0xC0, 0x0C, 0, 1, 0, 1, 0, 0, 1, 0x2C, 0, 4] ++
    (List.range 4).map fun i => UInt8.ofNat ((ipParts ip).getD i 0)

/-- `_buildDnsResponse`; `none` is a read outside of the query. -/
def buildDnsResponse (queryBuf : List UInt8) (ip : Option Ipv4) (nxdomain : Bool) : Option (List UInt8) :=
  (findEnd queryBuf queryBuf.length 12).map fun qEnd =>
    let question := (queryBuf.take (qEnd + 5)).drop 12
    let resp := (responseHeader queryBuf ip nxdomain).rightpad 12 0 ++ question
    match ip with
    | none => resp
    | some ip => resp ++ answerRecord ip

/-! ### What an answer is to be -/

/-- The number of a message. -/
def idOf (bytes : List UInt8) : ℕ := word (bytes.getD 0 0) (bytes.getD 1 0)

/-- The only record of an answer: the address of the name. -/
def IsAddress (response : List UInt8) (name : Name) (ip : Ipv4) (r : Record) : Prop :=
  r.type = 1 ∧ r.rclass = 1 ∧ r.data = [ip.bytes.1, ip.bytes.2.1, ip.bytes.2.2.1, ip.bytes.2.2.2] ∧
    expand response 1 r.name = some name.labels

/-- A message with the number of the query, its first question, and the address if there is one. -/
def Answers (query : List UInt8) (ip : Option Ipv4) (response : List UInt8) : Prop :=
  ∃ q rest msg, readQuestion (query.drop 12) = some (q, rest) ∧ decode response = some msg ∧
    msg.id = idOf query ∧ msg.questions = [q] ∧ msg.authority = [] ∧ msg.additional = [] ∧
    match ip with
    | none => msg.answers = []
    | some ip => ∃ r, msg.answers = [r] ∧ IsAddress response q.name ip r

/-- The header of the query announces one question and nothing else that would be copied, and the question is
complete. -/
structure OneQuestion (query : List UInt8) : Prop where
  questions : word (query.getD 4 0) (query.getD 5 0) = 1
  authority : word (query.getD 8 0) (query.getD 9 0) = 0
  additional : word (query.getD 10 0) (query.getD 11 0) = 0
  complete : (readQuestion (query.drop 12)).isSome = true

/-! ### The parts of an address -/

theorem number_decimal (b : UInt8) : JsObject.number (decimal b) = b.toNat := by
  have hall : ∀ n < 256, JsObject.number (Nat.toDigits 10 n) = n := by decide +kernel
  exact hall b.toNat b.toNat_lt

theorem dot_notMem_decimal (b : UInt8) : '.' ∉ decimal b := by
  have hall : ∀ n < 256, '.' ∉ Nat.toDigits 10 n := by decide +kernel
  exact hall b.toNat b.toNat_lt

/-- The parts are the bytes of the address. -/
theorem ipParts_eq (ip : Ipv4) :
    ipParts ip = [ip.bytes.1.toNat, ip.bytes.2.1.toNat, ip.bytes.2.2.1.toNat, ip.bytes.2.2.2.toNat] := by
  obtain ⟨text, ⟨a, b, c, d⟩, htext⟩ := ip
  have hsplit : text.splitOn '.' = [decimal a, decimal b, decimal c, decimal d] := by
    rw [htext]
    refine List.splitOn_intercalate '.' (fun part hpart => ?_) (List.cons_ne_nil _ _)
    obtain ⟨e, rfl⟩ : ∃ e, part = decimal e := by
      simp only [List.mem_cons, List.not_mem_nil, or_false] at hpart
      rcases hpart with rfl | rfl | rfl | rfl
      all_goals exact ⟨_, rfl⟩
    exact dot_notMem_decimal e
  unfold ipParts
  rw [hsplit]
  simp only [List.map_cons, List.map_nil, number_decimal]

theorem answerRecord_eq (ip : Ipv4) : answerRecord ip =
    [0xC0, 0x0C, 0, 1, 0, 1, 0, 0, 1, 0x2C, 0, 4, ip.bytes.1, ip.bytes.2.1, ip.bytes.2.2.1, ip.bytes.2.2.2] := by
  unfold answerRecord
  rw [ipParts_eq]
  simp [List.range_succ]

/-! ### The end of the question -/

/-- The two loops go over the same labels: where the first ends, the second ends, and the name that is read
there is the one of the labels. -/
theorem findEnd_of_parseLabels {buf : List UInt8} {rounds offset : ℕ} {labels : List (List UInt8)} {last : ℕ}
    (hrounds : buf.length ≤ offset + rounds) (h : parseLabels buf rounds offset = some (labels, last)) :
    findEnd buf rounds offset = some last ∧ offset ≤ last ∧
      ∀ fuel, buf.length ≤ offset + fuel → readNameFuel fuel (buf.drop offset) =
        if last < buf.length then some (⟨labels, none⟩, buf.drop (last + 1)) else none := by
  induction rounds generalizing offset labels with
  | zero =>
      cases h
      refine ⟨rfl, Nat.le_refl _, fun fuel _ => ?_⟩
      have hle : buf.length ≤ last := hrounds
      rw [List.drop_eq_nil_of_le hle, if_neg (by omega)]
      cases fuel <;> rfl
  | succ rounds ih =>
      rw [parseLabels] at h
      split at h
      · -- the end of the query
        rename_i hget
        have hle := List.getElem?_eq_none_iff.1 hget
        cases h
        refine ⟨if_neg (by omega), Nat.le_refl _, fun fuel _ => ?_⟩
        rw [List.drop_eq_nil_of_le hle, if_neg (by omega)]
        cases fuel <;> rfl
      · rename_i len hget
        obtain ⟨hlt, rfl⟩ := List.getElem?_eq_some_iff.1 hget
        have hdrop : buf.drop offset = buf[offset] :: buf.drop (offset + 1) := List.drop_eq_getElem_cons hlt
        have hfind : findEnd buf (rounds + 1) offset =
            if buf[offset] = 0 then some offset else findEnd buf rounds (offset + (buf[offset].toNat + 1)) := by
          rw [findEnd, if_pos hlt, hget]
        split_ifs at h with hzero hlong hshort
        · -- the end of the name
          cases h
          refine ⟨by rw [hfind, if_pos hzero], Nat.le_refl _, fun fuel hfuel => ?_⟩
          obtain ⟨fuel, rfl⟩ : ∃ f, fuel = f + 1 := ⟨fuel - 1, by omega⟩
          rw [hdrop, readNameFuel, if_pos hzero, if_pos hlt]
        · -- a label
          obtain ⟨⟨labels', last'⟩, hparse, hpair⟩ := Option.map_eq_some_iff.1 h
          cases hpair
          obtain ⟨hend, hle, hread⟩ := ih (by omega) hparse
          refine ⟨?_, by omega, fun fuel hfuel => ?_⟩
          · rw [hfind, if_neg hzero, ← hend]
            congr 1
            omega
          · obtain ⟨fuel, rfl⟩ : ∃ f, fuel = f + 1 := ⟨fuel - 1, by omega⟩
            have hnext : (buf.drop (offset + 1)).drop buf[offset].toNat =
                buf.drop (offset + 1 + buf[offset].toNat) := by
              rw [List.drop_drop]
            rw [hdrop, readNameFuel, if_neg hzero, if_pos (by omega), if_pos (by
              rw [List.length_drop]
              omega), hnext, hread fuel (by omega)]
            split_ifs <;> rfl

/-- Where a query is accepted: the end of its name, and what is read there. -/
theorem exists_end {query : List UInt8} (h : (parseDnsQuery query).isSome = true) :
    17 ≤ query.length ∧ ∃ labels last, findEnd query query.length 12 = some last ∧ 12 ≤ last ∧
      readName (query.drop 12) =
        if last < query.length then some (⟨labels, none⟩, query.drop (last + 1)) else none := by
  unfold parseDnsQuery at h
  split_ifs at h with hlen
  · cases h
  · obtain ⟨p, hp⟩ := Option.isSome_iff_exists.1 h
    obtain ⟨⟨labels, last⟩, hparse, -⟩ := Option.map_eq_some_iff.1 hp
    obtain ⟨hend, hle, hread⟩ := findEnd_of_parseLabels (Nat.le_add_left _ _) hparse
    refine ⟨by omega, labels, last, hend, hle, hread _ ?_⟩
    rw [List.length_drop]
    omega

/-! ### The answers -/

/-- What comes behind the question. -/
def answerSection (ip : Option Ipv4) : List UInt8 := (ip.map answerRecord).getD []

/-- **The builder reads nothing outside of the query.** -/
theorem buildDnsResponse_eq {query : List UInt8} (h : (parseDnsQuery query).isSome = true) (ip : Option Ipv4)
    (nxdomain : Bool) : ∃ last, findEnd query query.length 12 = some last ∧ buildDnsResponse query ip nxdomain =
      some (responseHeader query ip nxdomain ++ ((query.take (last + 5)).drop 12 ++ answerSection ip)) := by
  obtain ⟨hlen, labels, last, hend, -, -⟩ := exists_end h
  have hheader : (responseHeader query ip nxdomain).length = 12 := by
    unfold responseHeader
    simp only [List.length_set, List.length_take]
    omega
  refine ⟨last, hend, ?_⟩
  unfold buildDnsResponse
  rw [hend]
  unfold List.rightpad
  rw [hheader]
  cases ip with
  | none => simp [answerSection]
  | some ip => simp [answerSection]

/-- A query, byte by byte up to its sections. -/
theorem exists_header {query : List UInt8} (h : 12 ≤ query.length) : ∃ b0 b1 b2 b3 b4 b5 b6 b7 b8 b9 b10 b11 body,
    query = b0 :: b1 :: b2 :: b3 :: b4 :: b5 :: b6 :: b7 :: b8 :: b9 :: b10 :: b11 :: body := by
  match query, h with
  | b0 :: b1 :: b2 :: b3 :: b4 :: b5 :: b6 :: b7 :: b8 :: b9 :: b10 :: b11 :: body, _ =>
    exact ⟨b0, b1, b2, b3, b4, b5, b6, b7, b8, b9, b10, b11, body, rfl⟩

/-- The record of an answer. -/
def recordOf (ip : Ipv4) : Record :=
  ⟨⟨[], some 12⟩, 1, 1, 300, [ip.bytes.1, ip.bytes.2.1, ip.bytes.2.2.1, ip.bytes.2.2.2]⟩

/-- The record is read back. -/
theorem readMany_answerRecord (ip : Ipv4) : readMany readRecord 1 (answerRecord ip) = some ([recordOf ip], []) := by
  have hread : readRecord (answerRecord ip) = some (recordOf ip, []) := by
    rw [answerRecord_eq]
    rfl
  rw [readMany, hread]
  rfl

/-- The question that is read in a query is the part that is copied. -/
theorem copied_question {query rest : List UInt8} {q : Question} {last : ℕ} (h : (parseDnsQuery query).isSome = true)
    (hend : findEnd query query.length 12 = some last) (hq : readQuestion (query.drop 12) = some (q, rest)) :
    q.name.pointer = none ∧ Reads readQuestion q ((query.take (last + 5)).drop 12) := by
  obtain ⟨-, labels, last', hend', hle, hname⟩ := exists_end h
  obtain rfl : last' = last := Option.some.inj (hend'.symm.trans hend)
  obtain ⟨front, hfront, hreads⟩ := reads_of_readQuestion hq
  have hlt : last' < query.length := by
    by_contra hnot
    rw [readQuestion, hname, if_neg hnot] at hq
    cases hq
  rw [if_pos hlt] at hname
  unfold readQuestion at hq
  rw [hname] at hq
  split at hq
  · rename_i name t0 t1 c0 c1 rest' hpair
    cases hq
    obtain ⟨rfl, hdrop⟩ := Prod.mk.inj (Option.some.inj hpair)
    refine ⟨rfl, ?_⟩
    have hlen := congrArg List.length hdrop
    have hlen' := congrArg List.length hfront
    simp only [List.length_drop, List.length_cons, List.length_append] at hlen hlen'
    have htake : (query.take (last' + 5)).drop 12 = front := by
      rw [List.drop_take, hfront]
      exact List.take_left' (by omega)
    rw [htake]
    exact hreads
  · cases hq

/-- **Which queries are answered as they should.** -/
theorem answers_iff {query : List UInt8} (h : (parseDnsQuery query).isSome = true) (ip : Option Ipv4)
    (nxdomain : Bool) :
    (∃ response, buildDnsResponse query ip nxdomain = some response ∧ Answers query ip response) ↔
      OneQuestion query := by
  obtain ⟨last, hend, hbuild⟩ := buildDnsResponse_eq h ip nxdomain
  obtain ⟨hlen, -⟩ := exists_end h
  obtain ⟨b0, b1, b2, b3, b4, b5, b6, b7, b8, b9, b10, b11, body, rfl⟩ := exists_header (Nat.le_trans (by decide) hlen)
  constructor
  · rintro ⟨response, hresponse, q, rest, msg, hq, hdecode, -, hquestions, hauthority, hadditional, -⟩
    obtain rfl := Option.some.inj (hbuild.symm.trans hresponse)
    obtain ⟨⟨questions, body₁⟩, h₁, hdecode⟩ := Option.bind_eq_some_iff.1 hdecode
    obtain ⟨⟨answers, body₂⟩, h₂, hdecode⟩ := Option.bind_eq_some_iff.1 hdecode
    obtain ⟨⟨authority, body₃⟩, h₃, hdecode⟩ := Option.bind_eq_some_iff.1 hdecode
    obtain ⟨⟨additional, body₄⟩, h₄, hdecode⟩ := Option.bind_eq_some_iff.1 hdecode
    dsimp only at hdecode
    by_cases hall : body₄ = []
    · rw [if_pos hall] at hdecode
      obtain rfl := Option.some.inj hdecode
      obtain rfl : questions = [q] := hquestions
      obtain rfl : authority = [] := hauthority
      obtain rfl : additional = [] := hadditional
      exact ⟨(length_readMany h₁).symm, (length_readMany h₃).symm, (length_readMany h₄).symm, by rw [hq]; rfl⟩
    · rw [if_neg hall] at hdecode
      cases hdecode
  · rintro ⟨hquestions, hauthority, hadditional, hcomplete⟩
    obtain ⟨⟨q, rest⟩, hq⟩ := Option.isSome_iff_exists.1 hcomplete
    obtain ⟨hpointer, hreads⟩ := copied_question h hend hq
    obtain ⟨after, hname⟩ := readName_of_readQuestion (hreads (answerSection ip))
    cases ip with
    | none =>
        have hdecode := @decode_oneQuestion _ _ [] [] b0 b1 0x81 (if nxdomain then 0x83 else 0x80) b4 b5 0 0 b8 b9 b10
          b11 hreads hquestions rfl hauthority hadditional
        exact ⟨_, hbuild, q, rest, _, hq, hdecode, rfl, rfl, rfl, rfl, rfl⟩
    | some ip =>
        have hdecode := @decode_oneQuestion _ _ _ _ b0 b1 0x81 (if nxdomain then 0x83 else 0x80) b4 b5 0 1 b8 b9 b10
          b11 hreads hquestions (readMany_answerRecord ip) hauthority hadditional
        refine ⟨_, hbuild, q, rest, _, hq, hdecode, rfl, rfl, rfl, rfl, _, rfl, rfl, rfl, rfl, ?_⟩
        -- the pointer leads to the name of the question
        exact expand_pointer hpointer hname

/-- A query for the addresses of `a.b`. -/
def queryAB : List UInt8 :=
  [0x12, 0x34, 1, 0, 0, 1, 0, 0, 0, 0, 0, 0, 1, 0x61, 1, 0x62, 0, 0, 1, 0, 1]

def loopback : Ipv4 := ⟨"127.0.0.1".toList, (127, 0, 0, 1), by decide⟩

theorem answers_iff_queryAB : ∃ response, buildDnsResponse queryAB (some loopback) false = some response ∧
    Answers queryAB (some loopback) response :=
  (answers_iff (by decide +kernel) (some loopback) false).2 ⟨rfl, rfl, rfl, by decide +kernel⟩

/-- The query with an additional record, as a resolver sends it that takes longer messages. -/
def queryEdns : List UInt8 :=
  [0x12, 0x34, 1, 0, 0, 1, 0, 0, 0, 0, 0, 1, 1, 0x61, 1, 0x62, 0, 0, 1, 0, 1, 0, 0, 41, 4, 208, 0, 0, 0, 0, 0, 0]

/-- **The answer announces a record that it does not have.** -/
theorem not_answers : ¬ ∀ (query : List UInt8) (ip : Option Ipv4) (nxdomain : Bool),
    (parseDnsQuery query).isSome = true →
      ∃ response, buildDnsResponse query ip nxdomain = some response ∧ Answers query ip response := by
  intro h
  obtain ⟨response, hbuild, q, rest, msg, -, hdecode, -⟩ := h queryEdns (some loopback) false (by decide +kernel)
  have hnone : (buildDnsResponse queryEdns (some loopback) false).bind decode = none := by decide +kernel
  rw [hbuild, Option.bind_some, hdecode] at hnone
  cases hnone

end DnsResponses
