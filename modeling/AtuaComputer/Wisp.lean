/-
**The streams of the Wisp client.**

One WebSocket to the relay carries all TCP streams of the guest.  A frame begins with its type and the
number of its stream; the client keeps the open streams in a map and calls back the one that a frame is for.
Frames may come for streams that were closed or never were.

What a frame does is a matter of the one stream that it names, so the client is followed through the eyes
of each stream: its entry in the map and its callbacks.

Main definitions:

* `Wisp.Client`, `Wisp.after` — the client and its functions, with the frames it sends and the callbacks
  it makes, in order;
* `Wisp.relay` — the frame that the relay reads in a message;
* `Wisp.View`, `Wisp.View.after` — one stream by itself;
* `Wisp.Apart` — the streams do not disturb each other;
* `Wisp.Decodes`, `Wisp.Reads` — the relay reads what was meant, but for halves of surrogate pairs in a host.

Main results:

* `Wisp.view_after` — each stream goes on by itself;
* `Wisp.relay_connectFrame`, `Wisp.relay_dataFrame`, `Wisp.relay_closeFrame` — the relay reads back the
  frames;
* `Wisp.not_multiplexed_halfPair` — a host that the relay does not read;
* `Wisp.multiplexed_of_ports` — **every sequence of calls and messages keeps the streams apart**.
-/

import AtuaComputer.ByteCodec
import AtuaComputer.JsMap
import AtuaComputer.Runs
import AtuaComputer.Utf16
import Mathlib.Data.List.Induction
import Mathlib.Data.List.TakeWhile

set_option relaxedAutoImplicit false
set_option autoImplicit false

namespace Wisp

open Runs

/-! ### Frames -/

/-- `getUint32` and `readUInt32LE` -/
def readUInt32LE (buf : List UInt8) (offset : ℕ) : ℕ := leNat ((buf.drop offset).take 4)

/-- `readUInt16LE` -/
def readUInt16LE (buf : List UInt8) (offset : ℕ) : ℕ := leNat ((buf.drop offset).take 2)

/-- The type of a frame, its first byte. -/
def frameType (buf : List UInt8) : UInt8 := buf.getD 0 0

/-- The frame of `createStream`: the stream type is TCP.  The host is a string of UTF-16, which `TextEncoder` takes
for a text. -/
def connectFrame (streamId : ℕ) (host : List UInt16) (port : ℕ) : List UInt8 :=
  0x01 :: leBytes 4 streamId ++ 0x01 :: leBytes 2 port ++ Utf8.encode (Utf16.toText host)

/-- The frame of `send`. -/
def dataFrame (streamId : ℕ) (payload : List UInt8) : List UInt8 := 0x02 :: leBytes 4 streamId ++ payload

/-- The frame of `close`: the reason is that the client wanted it. -/
def closeFrame (streamId : ℕ) : List UInt8 := 0x04 :: leBytes 4 streamId ++ [0x01]

/-- What a frame says. -/
inductive Frame where
  | connect (streamId : ℕ) (streamType : UInt8) (destPort : ℕ) (hostname : List UInt16)
  | data (streamId : ℕ) (payload : List UInt8)
  | close (streamId : ℕ)
deriving DecidableEq

/-- The frame that the relay reads in a message, if it is one that it acts on.  In a short `CONNECT` the
read of the port throws. -/
def relay (buf : List UInt8) : Option Frame :=
  if buf.length < 5 then none
  else if frameType buf = 0x01 then
    if buf.length < 8 then none
    else
      some (.connect (readUInt32LE buf 1) (buf.getD 5 0) (readUInt16LE buf 6)
        (Utf16.ofText (Utf8.run Utf8.Decoder.start (buf.drop 8))))
  else if frameType buf = 0x02 then some (.data (readUInt32LE buf 1) (buf.drop 5))
  else if frameType buf = 0x04 then some (.close (readUInt32LE buf 1))
  else none

/-! ### The client -/

/-- A call of one of the functions that were given to `createStream`. -/
inductive Callback where
  | onConnect
  | onData (payload : List UInt8)
  | onClose (reason : UInt8)
deriving DecidableEq

/-- The client: for each open stream whether it is `connected`, the next number, what was handed to the
WebSocket, and the callbacks with their streams. -/
structure Client where
  streams : JsMap ℕ Bool
  nextStreamId : ℕ
  sent : List (List UInt8)
  fired : List (ℕ × Callback)

/-- A new client. -/
def Client.fresh : Client := ⟨JsMap.empty, 1, [], []⟩

/-- `createStream` -/
def Client.createStream (c : Client) (host : List UInt16) (port : ℕ) : Client :=
  { c with
    streams := c.streams.set c.nextStreamId false
    nextStreamId := c.nextStreamId + 1
    sent := c.sent ++ [connectFrame c.nextStreamId host port] }

/-- `send` -/
def Client.send (c : Client) (streamId : ℕ) (data : List UInt8) : Client :=
  if c.streams.has streamId then { c with sent := c.sent ++ [dataFrame streamId data] } else c

/-- `close` -/
def Client.close (c : Client) (streamId : ℕ) : Client :=
  if c.streams.has streamId then
    { c with sent := c.sent ++ [closeFrame streamId], streams := c.streams.delete streamId }
  else c

/-- `_onMessage` -/
def Client.onMessage (c : Client) (buf : List UInt8) : Client :=
  if buf.length < 5 then c
  else
    let streamId := readUInt32LE buf 1
    match c.streams.get? streamId with
    | none => c
    | some connected =>
      if frameType buf = 0x02 then { c with fired := c.fired ++ [(streamId, .onData (buf.drop 5))] }
      else if frameType buf = 0x03 then
        if connected then c
        else
          { c with
            streams := c.streams.set streamId true
            fired := c.fired ++ [(streamId, .onConnect)] }
      else if frameType buf = 0x04 then
        { c with
          streams := c.streams.delete streamId
          fired := c.fired ++ [(streamId, .onClose (buf.getD 5 0))] }
      else c

/-- `_handleWsClose` -/
def Client.handleWsClose (c : Client) : Client :=
  { c with
    streams := JsMap.empty
    fired := c.fired ++ c.streams.entries.map fun e => (e.1, .onClose 0x02) }

/-- What happens to the client. -/
inductive Event where
  | createStream (host : List UInt16) (port : ℕ)
  | send (streamId : ℕ) (data : List UInt8)
  | close (streamId : ℕ)
  | message (buf : List UInt8)
  | wsClose

/-- The client after an event. -/
def after (c : Client) : Event → Client
  | .createStream host port => c.createStream host port
  | .send streamId data => c.send streamId data
  | .close streamId => c.close streamId
  | .message buf => c.onMessage buf
  | .wsClose => c.handleWsClose

/-- The client after a sequence of events. -/
def client (evs : List Event) : Client := evs.foldl after Client.fresh

/-! ### What is expected -/

/-- The number of streams that were created. -/
def creates (evs : List Event) : ℕ := evs.countP fun ev => ev matches .createStream _ _

/-- The events since the stream `id` was created, if it was; `next` is the next number. -/
def since (next id : ℕ) : List Event → Option (List Event)
  | [] => none
  | .createStream _ _ :: evs => if next = id then some evs else since (next + 1) id evs
  | _ :: evs => since next id evs

/-- A message with a frame of this type for this stream. -/
def isFrame (type : UInt8) (id : ℕ) (buf : List UInt8) : Bool :=
  5 ≤ buf.length && frameType buf == type && readUInt32LE buf 1 == id

/-- The event ends an open stream. -/
def closes (id : ℕ) : Event → Bool
  | .close streamId => streamId == id
  | .message buf => isFrame 0x04 id buf
  | .wsClose => true
  | _ => false

/-- The payload of a `DATA` frame for a stream. -/
def payload (id : ℕ) : Event → Option (List UInt8)
  | .message buf => if isFrame 0x02 id buf then some (buf.drop 5) else none
  | _ => none

/-- The payloads that come for a stream before it is closed. -/
def received (id : ℕ) (life : List Event) : List (List UInt8) :=
  (life.takeWhile fun ev => !closes id ev).filterMap (payload id)

/-- The stream was created and has been closed. -/
def Closed (id : ℕ) (evs : List Event) : Prop := ∃ life, since 1 id evs = some life ∧ life.any (closes id) = true

/-- The callbacks of one stream. -/
def firedFor (id : ℕ) (c : Client) : List Callback :=
  c.fired.filterMap fun e => if e.1 = id then some e.2 else none

/-- The payload of a call of `onData`. -/
def Callback.payload : Callback → Option (List UInt8)
  | .onData payload => some payload
  | _ => none

/-- The number of calls of `onConnect`. -/
def connects (calls : List Callback) : ℕ := calls.countP fun call => call matches .onConnect

/-- The number of calls of `onClose`. -/
def closings (calls : List Callback) : ℕ := calls.countP fun call => call matches .onClose _

/-- The frame that a call asks for; on a stream that is not open it asks for none. -/
def asked (c : Client) : Event → Option Frame
  | .createStream host port => some (.connect c.nextStreamId 0x01 port host)
  | .send streamId data => if c.streams.has streamId then some (.data streamId data) else none
  | .close streamId => if c.streams.has streamId then some (.close streamId) else none
  | _ => none

/-- A call sends the frame that it asks for, which the relay reads as `read` says; nothing else is sent. -/
def Sends (read : Frame → Frame) (c : Client) (ev : Event) (c' : Client) : Prop :=
  match asked c ev with
  | none => c'.sent = c.sent
  | some frame => ∃ buf, c'.sent = c.sent ++ [buf] ∧ relay buf = some (read frame)

/-- The relay reads what was meant. -/
def Decodes (c : Client) (ev : Event) (c' : Client) : Prop := Sends id c ev c'

/-- A frame with U+FFFD in its host for each half of a surrogate pair that stands alone. -/
def Frame.wellFormed : Frame → Frame
  | .connect streamId streamType destPort hostname =>
    .connect streamId streamType destPort (Utf16.ofText (Utf16.toText hostname))
  | frame => frame

/-- In the host of a new stream no half of a surrogate pair stands alone. -/
def HostOk : Event → Prop
  | .createStream host _ => Utf16.Paired host
  | _ => True

/-- The relay reads what was meant, but for the halves of pairs in a host, and exactly what was meant if there are
none. -/
structure Reads (c : Client) (ev : Event) (c' : Client) : Prop where
  sends : Sends Frame.wellFormed c ev c'
  decodes : Decodes c ev c' ↔ HostOk ev

/-- The streams of a client do not disturb each other: each gets the payloads of its own frames from its
creation to its close, in order; it is told at most once that it is connected and at most once that it was
closed; and nothing comes after the close. -/
structure Apart (evs : List Event) : Prop where
  data : ∀ id, (firedFor id (client evs)).filterMap Callback.payload =
    ((since 1 id evs).map (received id)).getD []
  connectOnce : ∀ id, connects (firedFor id (client evs)) ≤ 1
  closeOnce : ∀ id, closings (firedFor id (client evs)) ≤ 1
  unborn : ∀ id, since 1 id evs = none → firedFor id (client evs) = []
  quiet : ∀ id early late, evs = early ++ late → Closed id early →
    firedFor id (client evs) = firedFor id (client early)

/-- The streams are kept apart, and the relay reads in every frame what was meant. -/
structure Multiplexed (evs : List Event) : Prop where
  apart : Apart evs
  frames : EachStep Decodes Client.fresh (trace after Client.fresh evs)

/-- A port is a number of 16 bits. -/
def PortOk : Event → Prop
  | .createStream _ port => port < 2 ^ 16
  | _ => True

/-! ### The relay reads the frames -/

theorem take_leBytes (w n : ℕ) (rest : List UInt8) : (leBytes w n ++ rest).take w = leBytes w n := by
  rw [List.take_append_of_le_length (Nat.le_of_eq (length_leBytes w n).symm), List.take_of_length_le]
  exact Nat.le_of_eq (length_leBytes w n)

theorem drop_leBytes (w n : ℕ) (rest : List UInt8) : (leBytes w n ++ rest).drop w = rest := by
  have h := @List.drop_left _ (leBytes w n) rest
  rwa [length_leBytes] at h

/-- The number of the stream is behind the type. -/
theorem readUInt32LE_cons (type : UInt8) {id : ℕ} (hid : id < 2 ^ 32) (rest : List UInt8) :
    readUInt32LE (type :: (leBytes 4 id ++ rest)) 1 = id := by
  show leNat ((leBytes 4 id ++ rest).take 4) = id
  rw [take_leBytes]
  exact leNat_leBytes (by omega)

/-- What is behind the number of the stream. -/
theorem drop_five (type : UInt8) (id : ℕ) (rest : List UInt8) :
    (type :: (leBytes 4 id ++ rest)).drop 5 = rest := drop_leBytes 4 id rest

theorem relay_dataFrame {id : ℕ} (hid : id < 2 ^ 32) (payload : List UInt8) :
    relay (dataFrame id payload) = some (.data id payload) := by
  have hlen : ¬ (dataFrame id payload).length < 5 := by simp [dataFrame]
  have htype : frameType (dataFrame id payload) = 0x02 := rfl
  rw [relay, if_neg hlen, htype, if_neg (by decide), if_pos rfl]
  have hread : readUInt32LE (dataFrame id payload) 1 = id := readUInt32LE_cons _ hid _
  have hdrop : (dataFrame id payload).drop 5 = payload := drop_five _ _ _
  rw [hread, hdrop]

theorem relay_closeFrame {id : ℕ} (hid : id < 2 ^ 32) : relay (closeFrame id) = some (.close id) := by
  have hlen : ¬ (closeFrame id).length < 5 := by simp [closeFrame]
  have htype : frameType (closeFrame id) = 0x04 := rfl
  rw [relay, if_neg hlen, htype, if_neg (by decide), if_neg (by decide), if_pos rfl]
  have hread : readUInt32LE (closeFrame id) 1 = id := readUInt32LE_cons _ hid _
  rw [hread]

theorem relay_connectFrame {id port : ℕ} (hid : id < 2 ^ 32) (hport : port < 2 ^ 16) (host : List UInt16) :
    relay (connectFrame id host port) = some (Frame.connect id 0x01 port host).wellFormed := by
  have hframe : connectFrame id host port =
      0x01 :: (leBytes 4 id ++ 0x01 :: (leBytes 2 port ++ Utf8.encode (Utf16.toText host))) := by
    simp [connectFrame]
  have htype : frameType (connectFrame id host port) = 0x01 := rfl
  have hlen : 8 ≤ (connectFrame id host port).length := by
    rw [hframe]
    simp only [List.length_cons, List.length_append, length_leBytes]
    omega
  rw [relay, if_neg (by omega), htype, if_pos rfl, if_neg (by omega)]
  have hread : readUInt32LE (connectFrame id host port) 1 = id := by
    rw [hframe]
    exact readUInt32LE_cons _ hid _
  have hfive : (connectFrame id host port).drop 5 =
      0x01 :: (leBytes 2 port ++ Utf8.encode (Utf16.toText host)) := by
    rw [hframe]
    exact drop_five _ _ _
  have hsix : (connectFrame id host port).drop 6 = leBytes 2 port ++ Utf8.encode (Utf16.toText host) := by
    rw [← List.drop_drop (i := 1) (j := 5), hfive]
    rfl
  have hstream : (connectFrame id host port).getD 5 0 = 0x01 := by
    have h := @List.getElem?_drop _ (connectFrame id host port) 5 0
    rw [hfive] at h
    rw [List.getD_eq_getElem?_getD, ← h]
    rfl
  have hport' : readUInt16LE (connectFrame id host port) 6 = port := by
    rw [readUInt16LE, hsix, take_leBytes]
    exact leNat_leBytes (by omega)
  have hhost : Utf8.run Utf8.Decoder.start ((connectFrame id host port).drop 8) = Utf16.toText host := by
    rw [← List.drop_drop (i := 2) (j := 6), hsix, drop_leBytes]
    exact Utf8.run_encode (Utf16.toText host)
  rw [hread, hstream, hport', hhost, Frame.wellFormed]

/-- Only a host is read otherwise than it was meant. -/
theorem wellFormed_connect_iff (id : ℕ) (streamType : UInt8) (port : ℕ) (host : List UInt16) :
    (Frame.connect id streamType port host).wellFormed = .connect id streamType port host ↔ Utf16.Paired host := by
  rw [Frame.wellFormed, Frame.connect.injEq, ← Utf16.ofText_toText_iff]
  simp

/-! ### One stream by itself -/

/-- What there is of one stream: its entry in the map, and its callbacks. -/
structure View where
  stream : Option Bool
  calls : List Callback

/-- A stream in a client. -/
def view (id : ℕ) (c : Client) : View := ⟨c.streams.get? id, firedFor id c⟩

/-- A message for an open stream. -/
def View.receive (v : View) (connected : Bool) (buf : List UInt8) : View :=
  if frameType buf = 0x02 then { v with calls := v.calls ++ [.onData (buf.drop 5)] }
  else if frameType buf = 0x03 then
    if connected then v else ⟨some true, v.calls ++ [.onConnect]⟩
  else if frameType buf = 0x04 then ⟨none, v.calls ++ [.onClose (buf.getD 5 0)]⟩
  else v

/-- The stream `id` after an event; `born` says whether its number is the next one. -/
def View.after (id : ℕ) (born : Bool) (v : View) : Event → View
  | .createStream _ _ => if born then { v with stream := some false } else v
  | .send _ _ => v
  | .close streamId => if streamId = id then { v with stream := none } else v
  | .message buf =>
    if 5 ≤ buf.length ∧ readUInt32LE buf 1 = id then
      match v.stream with
      | some connected => v.receive connected buf
      | none => v
    else v
  | .wsClose =>
    match v.stream with
    | some _ => ⟨none, v.calls ++ [.onClose 0x02]⟩
    | none => v

theorem View.after_message (id : ℕ) (born : Bool) (v : View) (buf : List UInt8) :
    v.after id born (.message buf) =
      if 5 ≤ buf.length ∧ readUInt32LE buf 1 = id then
        match v.stream with
        | some connected => v.receive connected buf
        | none => v
      else v := rfl

theorem firedFor_append (id : ℕ) (c : Client) (streams : JsMap ℕ Bool) (next : ℕ) (sent : List (List UInt8))
    (calls : List (ℕ × Callback)) :
    firedFor id ⟨streams, next, sent, c.fired ++ calls⟩ =
      firedFor id c ++ calls.filterMap fun e => if e.1 = id then some e.2 else none := by
  rw [firedFor, List.filterMap_append]
  rfl

/-- In a map a key is met once, if it is there. -/
theorem filterMap_entries {V : Type} {es : List (ℕ × V)} (hnd : (es.map Prod.fst).Nodup) (id : ℕ)
    (call : Callback) :
    (es.filterMap fun e => if e.1 = id then some call else none) =
      ((es.lookup id).map fun _ => call).toList := by
  induction es with
  | nil => rfl
  | cons e es ih =>
      obtain ⟨i, v⟩ := e
      obtain ⟨hi, hnd'⟩ : i ∉ es.map Prod.fst ∧ (es.map Prod.fst).Nodup := List.nodup_cons.1 hnd
      rw [List.filterMap_cons, JsMap.lookup_cons_ite]
      by_cases heq : i = id
      · subst heq
        have hnone : es.lookup i = none := by
          rw [List.lookup_eq_none_iff]
          intro e he
          simp only [bne_iff_ne, ne_eq]
          rintro rfl
          exact hi (List.mem_map_of_mem he)
        rw [if_pos rfl, if_pos rfl, ih hnd', hnone]
        rfl
      · rw [if_neg heq, if_neg (Ne.symm heq), ih hnd']

/-- A message is for one stream only. -/
theorem view_onMessage_of_ne {id : ℕ} {buf : List UInt8} (hid : readUInt32LE buf 1 ≠ id) (c : Client) :
    view id (c.onMessage buf) = view id c := by
  unfold Client.onMessage
  split
  · rfl
  · dsimp only
    split
    · rfl
    · split
      · simp [view, firedFor_append, hid]
      · split
        · split
          · rfl
          · simp [view, firedFor_append, hid, JsMap.get?_set_ne (Ne.symm hid)]
        · split
          · simp [view, firedFor_append, hid, JsMap.get?_delete_ne (Ne.symm hid)]
          · rfl

/-- What a message does to the stream it is for. -/
theorem view_onMessage_self {c : Client} {buf : List UInt8} {connected : Bool} (hlen : 5 ≤ buf.length)
    (hget : c.streams.get? (readUInt32LE buf 1) = some connected) :
    view (readUInt32LE buf 1) (c.onMessage buf) = (view (readUInt32LE buf 1) c).receive connected buf := by
  unfold Client.onMessage View.receive
  rw [if_neg (by omega)]
  dsimp only
  rw [hget]
  dsimp only
  split
  · simp [view, firedFor_append]
  · split
    · split
      · rfl
      · simp [view, firedFor_append]
    · split
      · simp [view, firedFor_append]
      · rfl

/-- **Each stream goes on by itself.** -/
theorem view_after (id : ℕ) (c : Client) (ev : Event) :
    view id (after c ev) = (view id c).after id (c.nextStreamId == id) ev := by
  cases ev with
  | createStream host port =>
    by_cases hid : c.nextStreamId = id
    · subst hid
      simp [view, after, Client.createStream, View.after, firedFor]
    · simp [view, after, Client.createStream, View.after, firedFor, hid, JsMap.get?_set_ne (Ne.symm hid)]
  | send streamId data =>
    -- a view has no frames
    show view id (c.send streamId data) = view id c
    unfold Client.send
    split <;> rfl
  | close streamId =>
    show view id (c.close streamId) = if streamId = id then { view id c with stream := none } else view id c
    unfold Client.close
    by_cases hid : streamId = id
    · subst hid
      rw [if_pos rfl]
      split
      · simp [view, firedFor]
      · rename_i hno
        have hnone : c.streams.get? streamId = none := JsMap.has_eq_false_iff.1 (by simpa using hno)
        simp [view, hnone]
    · rw [if_neg hid]
      split
      · simp [view, firedFor, JsMap.get?_delete_ne (Ne.symm hid)]
      · rfl
  | message buf =>
    show view id (c.onMessage buf) = _
    rw [View.after_message]
    by_cases hid : readUInt32LE buf 1 = id
    · subst hid
      by_cases hlen : 5 ≤ buf.length
      · rw [if_pos ⟨hlen, rfl⟩]
        cases hget : c.streams.get? (readUInt32LE buf 1) with
        | none =>
          have hsame : c.onMessage buf = c := by
            unfold Client.onMessage
            rw [if_neg (by omega)]
            dsimp only
            rw [hget]
          rw [hsame, view, hget]
        | some connected =>
          rw [view_onMessage_self hlen hget, view, hget]
      · -- a short message is for no stream
        have hsame : c.onMessage buf = c := if_pos (by omega)
        rw [hsame, if_neg fun h => hlen h.1]
    · rw [view_onMessage_of_ne hid, if_neg fun h => hid h.2]
  | wsClose =>
    show view id c.handleWsClose = _
    have hcalls : (c.streams.entries.map fun e => (e.1, Callback.onClose 0x02)).filterMap
        (fun e => if e.1 = id then some e.2 else none) =
        ((c.streams.get? id).map fun _ => Callback.onClose 0x02).toList := by
      rw [List.filterMap_map]
      exact filterMap_entries c.streams.nodup id _
    rw [view, Client.handleWsClose, firedFor_append, hcalls]
    unfold View.after view
    cases hget : c.streams.get? id with
    | none => simp
    | some connected => simp

/-! ### The life of a stream -/

/-- Whether an event creates a stream. -/
def Event.isCreate : Event → Bool
  | .createStream _ _ => true
  | _ => false

theorem creates_cons (ev : Event) (evs : List Event) :
    creates (ev :: evs) = creates evs + if ev.isCreate then 1 else 0 := by
  cases ev <;> simp [creates, Event.isCreate]

theorem creates_append (early late : List Event) : creates (early ++ late) = creates early + creates late :=
  List.countP_append

theorem since_cons (next id : ℕ) (ev : Event) (evs : List Event) :
    since next id (ev :: evs) =
      if ev.isCreate then if next = id then some evs else since (next + 1) id evs else since next id evs := by
  cases ev <;> rfl

/-- The next number is that of the first stream and those created since. -/
theorem nextStreamId_after (c : Client) (ev : Event) :
    (after c ev).nextStreamId = c.nextStreamId + if ev.isCreate then 1 else 0 := by
  cases ev with
  | createStream host port => rfl
  | send streamId data =>
    show (c.send streamId data).nextStreamId = _
    unfold Client.send
    split <;> rfl
  | close streamId =>
    show (c.close streamId).nextStreamId = _
    unfold Client.close
    split <;> rfl
  | message buf =>
    show (c.onMessage buf).nextStreamId = c.nextStreamId
    unfold Client.onMessage
    split
    · rfl
    · dsimp only
      split
      · rfl
      · split
        · rfl
        · split
          · split <;> rfl
          · split <;> rfl
  | wsClose => rfl

theorem nextStreamId_foldl (evs : List Event) (c : Client) :
    (evs.foldl after c).nextStreamId = c.nextStreamId + creates evs := by
  induction evs generalizing c with
  | nil => rfl
  | cons ev evs ih =>
      rw [List.foldl_cons, ih, nextStreamId_after, creates_cons]
      omega

/-- One more event: it belongs to the life of a stream that was created, or creates the stream. -/
theorem since_concat (next id : ℕ) (evs : List Event) (ev : Event) :
    since next id (evs ++ [ev]) =
      match since next id evs with
      | some life => some (life ++ [ev])
      | none => if ev.isCreate ∧ next + creates evs = id then some [] else none := by
  induction evs generalizing next with
  | nil =>
      rw [List.nil_append, since_cons]
      by_cases hev : ev.isCreate = true
      · by_cases hid : next = id
        · simp [since, creates, hev, hid]
        · simp [since, creates, hev, hid]
      · simp [since, hev]
  | cons e evs ih =>
      rw [List.cons_append, since_cons, since_cons, creates_cons]
      by_cases he : e.isCreate = true
      · rw [if_pos he, if_pos he, if_pos he]
        by_cases hid : next = id
        · rw [if_pos hid, if_pos hid]
        · rw [if_neg hid, if_neg hid, ih]
          have hsum : next + 1 + creates evs = next + (creates evs + 1) := by omega
          rw [hsum]
      · rw [if_neg he, if_neg he, if_neg he, ih, Nat.add_zero]

/-- A stream that was created has a number below the next one. -/
theorem lt_of_since {next id : ℕ} {evs life : List Event} (h : since next id evs = some life) :
    id < next + creates evs := by
  induction evs generalizing next with
  | nil => cases h
  | cons ev evs ih =>
      rw [since_cons] at h
      rw [creates_cons]
      by_cases hev : ev.isCreate = true
      · rw [if_pos hev] at h ⊢
        by_cases hid : next = id
        · omega
        · rw [if_neg hid] at h
          have hlt := ih h
          omega
      · rw [if_neg hev] at h ⊢
        exact ih h

/-! ### What one event does to a stream -/

/-- The callbacks of a stream after the events `life` since its creation, if it was created: the payloads are
those that came for it, and what is told once is told once. -/
def Lives (id : ℕ) (life : Option (List Event)) (v : View) : Prop :=
  match life with
  | none => v = ⟨none, []⟩
  | some life =>
    v.calls.filterMap Callback.payload = received id life ∧
      match v.stream with
      | some connected =>
        life.any (closes id) = false ∧ connects v.calls ≤ connected.toNat ∧ closings v.calls = 0
      | none => life.any (closes id) = true ∧ connects v.calls ≤ 1 ∧ closings v.calls ≤ 1

/-- Nothing comes for a stream that has been closed. -/
theorem received_concat_of_closed {id : ℕ} {life : List Event} (h : life.any (closes id) = true) (ev : Event) :
    received id (life ++ [ev]) = received id life := by
  obtain ⟨e, he, hclose⟩ := List.any_eq_true.1 h
  rw [received, List.takeWhile_append, if_neg, received]
  intro hlen
  have hself : life.takeWhile (fun ev => !closes id ev) = life := (List.takeWhile_prefix _).eq_of_length hlen
  have hopen : !closes id e := List.takeWhile_eq_self_iff.1 hself e he
  rw [hclose] at hopen
  exact absurd hopen (by decide)

/-- An event that closes a stream has no payload for it. -/
theorem payload_of_closes {id : ℕ} {ev : Event} (h : closes id ev = true) : payload id ev = none := by
  cases ev with
  | message buf =>
    have htype : frameType buf = 0x04 := by
      simp only [closes, isFrame, Bool.and_eq_true, beq_iff_eq] at h
      exact h.1.2
    simp [payload, isFrame, htype]
  | createStream host port => rfl
  | send streamId data => rfl
  | close streamId => rfl
  | wsClose => rfl

theorem payload_of_other {id : ℕ} {ev : Event} (h : ∀ buf, ev ≠ .message buf) : payload id ev = none := by
  cases ev with
  | message buf => exact absurd rfl (h buf)
  | createStream host port => rfl
  | send streamId data => rfl
  | close streamId => rfl
  | wsClose => rfl

/-- An event for an open stream adds its payload. -/
theorem received_concat_of_open {id : ℕ} {life : List Event} (h : life.any (closes id) = false) (ev : Event) :
    received id (life ++ [ev]) = received id life ++ (payload id ev).toList := by
  have hall : ∀ e ∈ life, (!closes id e) = true := by
    intro e he
    rw [List.any_eq_false] at h
    simpa using h e he
  rw [received, List.takeWhile_append_of_pos hall, received, List.takeWhile_eq_self_iff.2 hall,
    List.filterMap_append]
  congr 1
  cases hclose : closes id ev with
  | true =>
    rw [payload_of_closes hclose]
    simp [hclose]
  | false =>
    cases hp : payload id ev with
    | none => simp [hclose, hp]
    | some bytes => simp [hclose, hp]

/-- A stream that is not open sees nothing. -/
theorem View.after_of_none {v : View} (h : v.stream = none) (id : ℕ) (ev : Event) : v.after id false ev = v := by
  obtain ⟨stream, calls⟩ := v
  obtain rfl : stream = none := h
  cases ev with
  | createStream host port => rfl
  | send streamId data => rfl
  | close streamId =>
    show (if streamId = id then _ else _) = _
    split <;> rfl
  | message buf =>
    rw [View.after_message]
    split <;> rfl
  | wsClose => rfl

/-- A message that is no frame for the stream. -/
theorem isFrame_of_not {id : ℕ} {buf : List UInt8} (h : ¬ (5 ≤ buf.length ∧ readUInt32LE buf 1 = id))
    (type : UInt8) : isFrame type id buf = false := by
  rw [Bool.eq_false_iff]
  intro hframe
  simp only [isFrame, Bool.and_eq_true, beq_iff_eq, decide_eq_true_eq] at hframe
  exact h ⟨hframe.1.1, hframe.2⟩

theorem isFrame_of_pos {id : ℕ} {buf : List UInt8} (h : 5 ≤ buf.length ∧ readUInt32LE buf 1 = id)
    (type : UInt8) : isFrame type id buf = (frameType buf == type) := by
  simp [isFrame, h.1, h.2]

/-- A callback without a payload. -/
theorem payloads_append {call : Callback} (h : call.payload = none) (calls : List Callback) :
    (calls ++ [call]).filterMap Callback.payload = calls.filterMap Callback.payload := by
  rw [List.filterMap_append, List.filterMap_cons, h, List.filterMap_nil, List.append_nil]

/-- A message for an open stream. -/
theorem lives_message {id : ℕ} {life : List Event} {connected : Bool} {calls : List Callback}
    (h : Lives id (some life) ⟨some connected, calls⟩) (buf : List UInt8) :
    Lives id (some (life ++ [.message buf])) ((⟨some connected, calls⟩ : View).after id false (.message buf)) := by
  obtain ⟨hdata, hopen, hconn, hclos⟩ := h
  have hany : (life ++ [Event.message buf]).any (closes id) = isFrame 0x04 id buf := by
    simp [hopen, closes]
  have hrec := received_concat_of_open hopen (.message buf)
  rw [View.after_message]
  by_cases hfor : 5 ≤ buf.length ∧ readUInt32LE buf 1 = id
  · rw [if_pos hfor]
    have hpay : payload id (.message buf) = if frameType buf = 0x02 then some (buf.drop 5) else none := by
      simp [payload, isFrame_of_pos hfor]
    rw [isFrame_of_pos hfor] at hany
    rw [hpay] at hrec
    show Lives id _ (View.receive ⟨some connected, calls⟩ connected buf)
    unfold View.receive
    by_cases hdatatype : frameType buf = 0x02
    · rw [if_pos hdatatype] at hrec ⊢
      rw [hdatatype] at hany
      refine ⟨?_, hany, ?_, ?_⟩
      · rw [hrec, List.filterMap_append, hdata]
        rfl
      · simpa [connects] using hconn
      · simpa [closings] using hclos
    · rw [if_neg hdatatype, Option.toList_none, List.append_nil] at hrec
      rw [if_neg hdatatype]
      -- the other types have no payload
      by_cases hcontinue : frameType buf = 0x03
      · rw [if_pos hcontinue]
        rw [hcontinue] at hany
        cases connected with
        | true => exact ⟨hdata.trans hrec.symm, hany, hconn, hclos⟩
        | false =>
          refine ⟨?_, hany, ?_, ?_⟩
          · exact (payloads_append rfl calls).trans (hdata.trans hrec.symm)
          · have hzero : connects calls = 0 := Nat.le_zero.1 hconn
            simpa [connects] using hzero
          · simpa [closings] using hclos
      · rw [if_neg hcontinue]
        by_cases hclosetype : frameType buf = 0x04
        · rw [if_pos hclosetype]
          rw [hclosetype] at hany
          refine ⟨?_, hany, ?_, ?_⟩
          · exact (payloads_append rfl calls).trans (hdata.trans hrec.symm)
          · have hle : connects calls ≤ 1 := hconn.trans (Bool.toNat_le connected)
            simpa [connects] using hle
          · simpa [closings] using hclos
        · rw [if_neg hclosetype]
          have hno : (frameType buf == 0x04) = false := by simpa using hclosetype
          rw [hno] at hany
          exact ⟨hdata.trans hrec.symm, hany, hconn, hclos⟩
  · rw [if_neg hfor]
    have hpay : payload id (.message buf) = none := by simp [payload, isFrame_of_not hfor]
    rw [hpay, Option.toList_none, List.append_nil] at hrec
    rw [isFrame_of_not hfor] at hany
    exact ⟨hdata.trans hrec.symm, hany, hconn, hclos⟩

/-- **One event in the life of a stream.** -/
theorem lives_after {id : ℕ} {life : List Event} {v : View} (h : Lives id (some life) v) (ev : Event) :
    Lives id (some (life ++ [ev])) (v.after id false ev) := by
  obtain ⟨stream, calls⟩ := v
  cases stream with
  | none =>
    obtain ⟨hdata, hclosed, hcounts⟩ := h
    rw [View.after_of_none rfl]
    refine ⟨?_, ?_, hcounts⟩
    · rw [received_concat_of_closed hclosed]
      exact hdata
    · rw [List.any_append, hclosed, Bool.true_or]
  | some connected =>
    have hlife := h
    obtain ⟨hdata, hopen, hconn, hclos⟩ := h
    have hany : (life ++ [ev]).any (closes id) = closes id ev := by simp [hopen]
    have hrec := received_concat_of_open hopen ev
    cases ev with
    | createStream host port =>
      rw [payload_of_other (by nofun), Option.toList_none, List.append_nil] at hrec
      exact ⟨hdata.trans hrec.symm, hany, hconn, hclos⟩
    | send streamId data =>
      rw [payload_of_other (by nofun), Option.toList_none, List.append_nil] at hrec
      exact ⟨hdata.trans hrec.symm, hany, hconn, hclos⟩
    | close streamId =>
      rw [payload_of_other (by nofun), Option.toList_none, List.append_nil] at hrec
      show Lives id _ (if streamId = id then _ else _)
      by_cases hid : streamId = id
      · rw [if_pos hid]
        refine ⟨hdata.trans hrec.symm, ?_, hconn.trans (Bool.toNat_le connected), ?_⟩
        · rw [hany]
          exact beq_iff_eq.2 hid
        · exact (Nat.le_of_eq hclos).trans (Nat.zero_le 1)
      · rw [if_neg hid]
        refine ⟨hdata.trans hrec.symm, ?_, hconn, hclos⟩
        rw [hany]
        exact beq_eq_false_iff_ne.2 hid
    | message buf => exact lives_message hlife buf
    | wsClose =>
      rw [payload_of_other (by nofun), Option.toList_none, List.append_nil] at hrec
      refine ⟨?_, hany, ?_, ?_⟩
      · exact (payloads_append rfl calls).trans (hdata.trans hrec.symm)
      · have hle : connects calls ≤ 1 := hconn.trans (Bool.toNat_le connected)
        simpa [View.after, connects] using hle
      · simpa [View.after, closings] using hclos

/-! ### Runs -/

theorem client_concat (evs : List Event) (ev : Event) : client (evs ++ [ev]) = after (client evs) ev := by
  rw [client, List.foldl_append]
  rfl

theorem nextStreamId_client (evs : List Event) : (client evs).nextStreamId = 1 + creates evs :=
  nextStreamId_foldl evs Client.fresh

/-- The callbacks of each stream are those of its life. -/
theorem lives_client (id : ℕ) (evs : List Event) : Lives id (since 1 id evs) (view id (client evs)) := by
  induction evs using List.reverseRecOn with
  | nil => rfl
  | append_singleton evs ev ih =>
      rw [client_concat, view_after, since_concat, nextStreamId_client]
      cases hlife : since 1 id evs with
      | some life =>
        rw [hlife] at ih
        have hlt : id < 1 + creates evs := lt_of_since hlife
        have hborn : (1 + creates evs == id) = false := beq_eq_false_iff_ne.2 (by omega)
        rw [hborn]
        exact lives_after ih ev
      | none =>
        rw [hlife] at ih
        have hview : view id (client evs) = ⟨none, []⟩ := ih
        rw [hview]
        by_cases hid : 1 + creates evs = id
        · have hborn : (1 + creates evs == id) = true := beq_iff_eq.2 hid
          rw [hborn]
          cases ev with
          | createStream host port =>
            dsimp only
            rw [if_pos ⟨rfl, hid⟩]
            exact ⟨rfl, rfl, Nat.le_refl 0, rfl⟩
          | send streamId data => rfl
          | close streamId =>
            show Lives id none (if streamId = id then _ else _)
            split <;> rfl
          | message buf =>
            show Lives id none ((⟨none, []⟩ : View).after id true (.message buf))
            rw [View.after_message]
            split <;> rfl
          | wsClose => rfl
        · have hborn : (1 + creates evs == id) = false := beq_eq_false_iff_ne.2 hid
          rw [hborn, View.after_of_none rfl]
          dsimp only
          rw [if_neg fun h => hid h.2]
          rfl

/-- A stream that is not open and not new stays as it is. -/
theorem view_foldl_of_none {id : ℕ} {c : Client} (hnone : (view id c).stream = none) (hid : id < c.nextStreamId)
    (evs : List Event) : view id (evs.foldl after c) = view id c := by
  induction evs generalizing c with
  | nil => rfl
  | cons ev evs ih =>
      have hborn : (c.nextStreamId == id) = false := beq_eq_false_iff_ne.2 (by omega)
      have hone : view id (after c ev) = view id c := by
        rw [view_after, hborn, View.after_of_none hnone]
      have hnext := nextStreamId_after c ev
      rw [List.foldl_cons, ih (by rw [hone]; exact hnone) (by omega), hone]

/-- **Nothing comes after the close.** -/
theorem firedFor_of_closed {id : ℕ} {early : List Event} (h : Closed id early) (late : List Event) :
    firedFor id (client (early ++ late)) = firedFor id (client early) := by
  obtain ⟨life, hlife, hclosed⟩ := h
  have hlives := lives_client id early
  rw [hlife] at hlives
  have hnone : (view id (client early)).stream = none := by
    cases hstream : (view id (client early)).stream with
    | none => rfl
    | some connected =>
      obtain ⟨-, hrest⟩ := hlives
      rw [hstream] at hrest
      rw [hrest.1] at hclosed
      cases hclosed
  have hlt : id < (client early).nextStreamId := by
    rw [nextStreamId_client]
    exact lt_of_since hlife
  have hview := view_foldl_of_none hnone hlt late
  rw [client, List.foldl_append]
  exact congrArg View.calls hview

/-- Every stream that is open was created. -/
theorem lt_of_has {id : ℕ} {evs : List Event} (h : (client evs).streams.has id = true) :
    id < 1 + creates evs := by
  have hlives := lives_client id evs
  cases hlife : since 1 id evs with
  | some life => exact lt_of_since hlife
  | none =>
    rw [hlife] at hlives
    have hget : (client evs).streams.get? id = none := congrArg View.stream hlives
    rw [JsMap.has, hget] at h
    cases h

theorem sent_onMessage (c : Client) (buf : List UInt8) : (c.onMessage buf).sent = c.sent := by
  unfold Client.onMessage
  split
  · rfl
  · dsimp only
    split
    · rfl
    · split
      · rfl
      · split
        · split <;> rfl
        · split <;> rfl

theorem sends_send {c : Client} (read : Frame → Frame) (hread : ∀ id data, read (.data id data) = .data id data)
    (hhas : ∀ id, c.streams.has id = true → id < 2 ^ 32) (streamId : ℕ) (data : List UInt8) :
    Sends read c (.send streamId data) (c.send streamId data) := by
  unfold Sends asked Client.send
  dsimp only
  by_cases hopen : c.streams.has streamId = true
  · rw [if_pos hopen, if_pos hopen]
    dsimp only
    rw [hread]
    exact ⟨_, rfl, relay_dataFrame (hhas _ hopen) data⟩
  · rw [if_neg hopen, if_neg hopen]

theorem sends_close {c : Client} (read : Frame → Frame) (hread : ∀ id, read (.close id) = .close id)
    (hhas : ∀ id, c.streams.has id = true → id < 2 ^ 32) (streamId : ℕ) :
    Sends read c (.close streamId) (c.close streamId) := by
  unfold Sends asked Client.close
  dsimp only
  by_cases hopen : c.streams.has streamId = true
  · rw [if_pos hopen, if_pos hopen]
    dsimp only
    rw [hread]
    exact ⟨_, rfl, relay_closeFrame (hhas _ hopen)⟩
  · rw [if_neg hopen, if_neg hopen]

/-- The frame of a new stream is read as it was meant if its host is a text, and not otherwise. -/
theorem decodes_createStream_iff {c : Client} (hnext : c.nextStreamId < 2 ^ 32) (host : List UInt16) {port : ℕ}
    (hport : port < 2 ^ 16) :
    Decodes c (.createStream host port) (c.createStream host port) ↔ Utf16.Paired host := by
  have hrelay := relay_connectFrame hnext hport host
  constructor
  · rintro ⟨buf, hsent, hread⟩
    obtain rfl : connectFrame c.nextStreamId host port = buf := by
      have hframes : c.sent ++ [connectFrame c.nextStreamId host port] = c.sent ++ [buf] := hsent
      simpa using hframes
    rw [hrelay, Option.some_inj] at hread
    exact (wellFormed_connect_iff _ _ _ _).1 hread
  · intro hpaired
    refine ⟨_, rfl, ?_⟩
    rw [hrelay]
    exact congrArg some ((wellFormed_connect_iff _ _ _ _).2 hpaired)

/-- What one event sends. -/
theorem reads_after {c : Client} {ev : Event} (hnext : ev.isCreate = true → c.nextStreamId < 2 ^ 32)
    (hhas : ∀ id, c.streams.has id = true → id < 2 ^ 32) (hport : PortOk ev) : Reads c ev (after c ev) := by
  cases ev with
  | createStream host port =>
    exact ⟨⟨_, rfl, relay_connectFrame (hnext rfl) hport host⟩, decodes_createStream_iff (hnext rfl) host hport⟩
  | send streamId data =>
    exact ⟨sends_send _ (fun _ _ => rfl) hhas streamId data,
      iff_of_true (sends_send id (fun _ _ => rfl) hhas streamId data) trivial⟩
  | close streamId =>
    exact ⟨sends_close _ (fun _ => rfl) hhas streamId,
      iff_of_true (sends_close id (fun _ => rfl) hhas streamId) trivial⟩
  | message buf => exact ⟨sent_onMessage c buf, iff_of_true (sent_onMessage c buf) trivial⟩
  | wsClose => exact ⟨rfl, iff_of_true rfl trivial⟩

theorem eachStep_reads {early late : List Event} (hcreates : creates (early ++ late) < 2 ^ 32)
    (hports : ∀ ev ∈ late, PortOk ev) : EachStep Reads (client early) (trace after (client early) late) := by
  induction late generalizing early with
  | nil => trivial
  | cons ev late ih =>
      have hsum : creates (early ++ ev :: late) = creates early + creates (ev :: late) := creates_append _ _
      have hlist : early ++ ev :: late = (early ++ [ev]) ++ late := by simp
      refine ⟨?_, ?_⟩
      · refine reads_after ?_ ?_ (hports ev List.mem_cons_self)
        · -- the new stream has a number, so there are fewer before it
          intro hev
          have hcons := creates_cons ev late
          rw [hev, if_pos rfl] at hcons
          rw [nextStreamId_client]
          omega
        · intro id hid
          have hlt := lt_of_has hid
          omega
      · have hlater := @ih (early ++ [ev]) (by rwa [← hlist]) fun e he => hports e (List.mem_cons_of_mem _ he)
        rwa [client_concat] at hlater

/-- There are no callbacks before the stream is made. -/
theorem firedFor_of_unborn {id : ℕ} {evs : List Event} (hlife : since 1 id evs = none) :
    firedFor id (client evs) = [] := by
  have hlives := lives_client id evs
  rw [hlife] at hlives
  exact congrArg View.calls hlives

/-- What is told once. -/
theorem counts_client (id : ℕ) (evs : List Event) :
    connects (firedFor id (client evs)) ≤ 1 ∧ closings (firedFor id (client evs)) ≤ 1 := by
  have hlives := lives_client id evs
  cases hlife : since 1 id evs with
  | none =>
    rw [firedFor_of_unborn hlife]
    exact ⟨Nat.zero_le _, Nat.zero_le _⟩
  | some life =>
    rw [hlife] at hlives
    obtain ⟨-, hcounts⟩ := hlives
    cases hstream : (view id (client evs)).stream with
    | none =>
      rw [hstream] at hcounts
      exact hcounts.2
    | some connected =>
      rw [hstream] at hcounts
      obtain ⟨-, hconn, hclos⟩ := hcounts
      exact ⟨hconn.trans (Bool.toNat_le connected), (Nat.le_of_eq hclos).trans (Nat.zero_le 1)⟩

/-- The streams of every sequence are kept apart. -/
theorem apart_client (evs : List Event) : Apart evs where
  data id := by
    have hlives := lives_client id evs
    cases hlife : since 1 id evs with
    | none =>
      rw [firedFor_of_unborn hlife]
      rfl
    | some life =>
      rw [hlife] at hlives
      exact hlives.1
  connectOnce id := (counts_client id evs).1
  closeOnce id := (counts_client id evs).2
  unborn _ hlife := firedFor_of_unborn hlife
  quiet id early late hsplit hclosed := by
    rw [hsplit]
    exact firedFor_of_closed hclosed late

/-- The client is asked for a stream to a host that is half of a surrogate pair. -/
def halfPair : List Event := [.createStream [0xD800] 80]

/-- The relay reads U+FFFD. -/
theorem not_multiplexed_halfPair :
    creates halfPair < 2 ^ 32 ∧ (∀ ev ∈ halfPair, PortOk ev) ∧ ¬ Multiplexed halfPair := by
  have hport : PortOk (.createStream [0xD800] 80) := by
    show 80 < 2 ^ 16
    omega
  refine ⟨by decide, fun ev hev => ?_, fun hmultiplexed => ?_⟩
  · obtain rfl : ev = _ := List.mem_singleton.1 hev
    exact hport
  · have hpaired := (decodes_createStream_iff (c := Client.fresh) (by decide) [0xD800] hport).1 hmultiplexed.frames.1
    exact hpaired (.inl (by decide))

/-- **Many streams on one socket.**  In every sequence of calls, messages and closes with fewer than 2³²
streams and ports of 16 bits, each stream gets exactly the payloads of its own frames, in order, each of its
other callbacks comes at most once and none after its close, and the relay reads in every frame of the client
what it was built from, with U+FFFD for what stands alone in a host; that is what it was built from if nothing does. -/
theorem multiplexed_of_ports {evs : List Event} (hcreates : creates evs < 2 ^ 32)
    (hports : ∀ ev ∈ evs, PortOk ev) :
    Apart evs ∧ EachStep Reads Client.fresh (trace after Client.fresh evs) :=
  ⟨apart_client evs, @eachStep_reads [] evs hcreates hports⟩

/-- Two streams, with frames for both and for one that never was. -/
def twoStreams : List Event :=
  [.createStream [97] 80, .createStream [0xD83D, 0xDE00] 443, .message (dataFrame 2 [7]), .message (dataFrame 1 [8]),
    .message (dataFrame 9 [1]), .close 2, .message (dataFrame 2 [9]), .send 1 [3], .wsClose]

theorem multiplexed_of_ports_twoStreams :
    Apart twoStreams ∧ EachStep Reads Client.fresh (trace after Client.fresh twoStreams) := by
  refine multiplexed_of_ports (by decide) ?_
  simp [twoStreams, PortOk]

end Wisp
