import LbRpc.Base.Runs
import LbRpc.Reactor.TcpClient
import LbRpc.Reactor.TcpConn

/-!
# From the server to a client

Messages go from a `TCPConn` to a `TCPClient`. The decode loop of the client pops a
message as soon as its head is there, without a look at how much of the body has come.

* `TcpClient.decode_ok`, `TcpClient.decode_overrun`: the loop is right where the bytes end
  with less than a head, and takes the length below zero where they end behind a head.
* `Downstream.delivers_iff`: the client has been called for exactly the messages that have
  arrived in full, throughout a run, **if and only if** no read ends behind the head of a
  message that has not arrived in full.
-/

namespace LbRpc

open Framing

namespace TcpClient

variable {c : TcpClient} {bs xs : List UInt8}

/-- What decoding `bs` from `c` on leaves. -/
structure Decoded (c : TcpClient) (bs : List UInt8) (c' : TcpClient) : Prop where
  connected : c'.connected = c.connected
  calls : c'.calls = c.calls ++ (parse format bs).frames.map frameCall
  ibuf : c'.ibuf.Holds (parse format bs).rest
  capacity : c'.ibuf.capacity = c.ibuf.capacity

/-- One round of the loop on a complete frame. -/
theorem decode_frame (fuel : ℕ) {hd body rest : List UInt8}
    (hi : c.ibuf.Holds (hd ++ body ++ rest)) (hlen : hd.length = format.headLen)
    (hb : format.bad (format.decode hd) = false) (hs : format.size (format.decode hd) = body.length) :
    ∃ ibuf : IOBuf, ibuf.Holds rest ∧ ibuf.capacity = c.ibuf.capacity ∧
      c.decode (fuel + 1) =
        decode fuel { c with
          ibuf := ibuf
          calls := c.calls ++ [frameCall (format.decode hd, body)] } := by
  have hlen8 : hd.length = messageHeadLen := hlen
  have htot := hi.length
  rw [List.append_assoc, List.length_append, List.length_append, hlen8] at htot
  have hmsg := msglen_of_size hb hs
  rw [List.append_assoc] at hi
  have hpeek := hi.peek
  have hpop := hi.pop
  rw [hlen8] at hpeek hpop
  have hbehind := hpop.slice
  refine ⟨(c.ibuf.pop messageHeadLen).pop body.length, hpop.pop, rfl, ?_⟩
  rw [decode, if_neg (by omega), hpeek]
  dsimp only
  rw [hmsg, Int.toNat_natCast, hbehind]
  rfl

/-- **The decode loop parses** bytes that end with less than a head. -/
theorem decode_ok (bs : List UInt8) : ∀ (fuel : ℕ) (c : TcpClient), c.ibuf.Holds bs →
    bs.length < fuel → (parse format bs).bad = false → (parse format bs).rest.length < format.headLen →
    ∃ c', c.decode fuel = .ok c' ∧ Decoded c bs c' := by
  refine parse_induction (F := format) bs ?_ ?_ ?_ ?_
  · intro bs hshort fuel c hi hfuel _ _
    obtain ⟨fuel, rfl⟩ := Nat.exists_eq_succ_of_ne_zero (by omega : fuel ≠ 0)
    have hlen := hi.length
    have hs : bs.length < messageHeadLen := hshort
    have hp := parse_short hshort
    refine ⟨c, ?_, rfl, ?_, ?_, rfl⟩
    · rw [decode, if_pos (by omega)]
    · rw [hp]; simp
    · rw [hp]; exact hi
  · intro bs hlong hbad fuel c _ _ hb _
    rw [parse_bad hlong hbad] at hb
    cases hb
  · intro bs hlong hbad hpart fuel c _ _ _ hrest
    rw [parse_waiting hlong hbad hpart] at hrest
    exact absurd hlong (Nat.not_le_of_lt hrest)
  · intro hd body rest hlen hb hs ih fuel c hi hfuel hgood hrest
    obtain ⟨fuel, rfl⟩ := Nat.exists_eq_succ_of_ne_zero (by omega : fuel ≠ 0)
    obtain ⟨ibuf, hholds, hcap, heq⟩ := decode_frame fuel hi hlen hb hs
    have hp := parse_frame hd body rest hlen hb hs
    rw [hp] at hgood hrest
    have hpos := format.headLen_pos
    rw [List.length_append, List.length_append, hlen] at hfuel
    obtain ⟨c', hrun, hdec⟩ := ih fuel
      { c with ibuf := ibuf, calls := c.calls ++ [frameCall (format.decode hd, body)] } hholds
      (by omega) hgood hrest
    refine ⟨c', heq.trans hrun, hdec.connected, ?_, ?_, hdec.capacity.trans hcap⟩
    · rw [hp, hdec.calls]; simp
    · rw [hp]; exact hdec.ibuf

/-- **Bytes that end behind a head** take the length of the buffer below zero. -/
theorem decode_overrun (bs : List UInt8) : ∀ (fuel : ℕ) (c : TcpClient), c.ibuf.Holds bs →
    bs.length < fuel → (parse format bs).bad = false → format.headLen ≤ (parse format bs).rest.length →
    ∃ c', c.decode fuel = .ok c' ∧ c'.ibuf.length < 0 ∧ 0 < c'.ibuf.head := by
  refine parse_induction (F := format) bs ?_ ?_ ?_ ?_
  · intro bs hshort fuel c _ _ _ hrest
    rw [parse_short hshort] at hrest
    exact absurd hshort (Nat.not_lt_of_le hrest)
  · intro bs hlong hbad fuel c _ _ hb _
    rw [parse_bad hlong hbad] at hb
    cases hb
  · intro bs hlong hbad hpart fuel c hi hfuel _ _
    have h8 : format.headLen = 8 := rfl
    obtain ⟨fuel, rfl⟩ := Nat.exists_eq_add_of_le' (by omega : 2 ≤ fuel)
    have hlen := hi.length
    have hhead := hi.head
    have hl : messageHeadLen ≤ bs.length := hlong
    have hm : messageHeadLen = 8 := rfl
    have hs : bs.length < messageHeadLen + (MsgHead.ofBytes (bs.take format.headLen)).msglen.toInt.toNat :=
      hpart
    have hpos := format_not_bad.1 hbad
    have hpeek : c.ibuf.peek messageHeadLen = .ok (bs.take format.headLen) := hi.peek_take hlong
    set len := (MsgHead.ofBytes (bs.take format.headLen)).msglen.toInt with hlendef
    rw [decode, if_neg (by omega), hpeek]
    dsimp only
    rw [← hlendef]
    -- the body is popped although it is not there, and the next round sees a short buffer
    have hneg : ((c.ibuf.pop messageHeadLen).pop len).length < 0 := by
      show c.ibuf.length - messageHeadLen - len < 0
      omega
    have hend : 0 < ((c.ibuf.pop messageHeadLen).pop len).head := by
      show 0 < c.ibuf.head + messageHeadLen + len
      omega
    rw [decode, if_pos (by show ((c.ibuf.pop messageHeadLen).pop len).length < messageHeadLen; omega)]
    exact ⟨_, rfl, hneg, hend⟩
  · intro hd body rest hlen hb hs ih fuel c hi hfuel hgood hrest
    obtain ⟨fuel, rfl⟩ := Nat.exists_eq_succ_of_ne_zero (by omega : fuel ≠ 0)
    obtain ⟨ibuf, hholds, hcap, heq⟩ := decode_frame fuel hi hlen hb hs
    rw [parse_frame hd body rest hlen hb hs] at hgood hrest
    have hpos := format.headLen_pos
    rw [List.length_append, List.length_append, hlen] at hfuel
    obtain ⟨c', hrun, hneg, hend⟩ := ih fuel
      { c with ibuf := ibuf, calls := c.calls ++ [frameCall (format.decode hd, body)] } hholds
      (by omega) hgood hrest
    exact ⟨c', heq.trans hrun, hneg, hend⟩

/-- **A client that has read the bytes `bs`.** -/
structure Took (bs : List UInt8) (c : TcpClient) : Prop where
  connected : c.connected = true
  calls : c.calls = (parse format bs).frames.map frameCall
  ibuf : c.ibuf.Holds (parse format bs).rest
  head : c.ibuf.head = 0
  capacity : c.ibuf.capacity = bufSize

/-- The bytes that come are in the buffer when the loop starts. -/
theorem Took.doRead (h : Took bs c) (fuel : ℕ) (hxs : xs ≠ [])
    (hfit : (xs.length : ℤ) + (parse format bs).rest.length ≤ bufSize) :
    ∃ ibuf : IOBuf, ibuf.Holds ((parse format bs).rest ++ xs) ∧ ibuf.capacity = bufSize ∧
      c.doRead fuel (some xs.length) (some xs) =
        match decode fuel { c with ibuf := ibuf } with
        | .error f => .error f
        | .ok c =>
          match c.ibuf.adjust with
          | .error f => .error f
          | .ok ibuf => .ok { c with ibuf := ibuf } := by
  have hlen := h.ibuf.length
  have hcap := h.capacity
  obtain ⟨ibuf, happ, hholds, -, hcap'⟩ := h.ibuf.append xs h.head (by omega)
  refine ⟨ibuf, hholds, hcap'.trans hcap, ?_⟩
  unfold TcpClient.doRead
  rw [if_neg (by simp [h.connected])]
  dsimp only
  rw [if_neg (by omega), if_neg hxs, if_neg (by simp)]
  generalize c.ibuf.append xs = r at happ ⊢
  subst happ
  rfl

theorem Took.read (h : Took bs c) (fuel : ℕ) (hgood : (parse format (bs ++ xs)).bad = false)
    (hxs : xs ≠ [])
    (hfit : (xs.length : ℤ) + (parse format bs).rest.length ≤ bufSize)
    (hfuel : (parse format bs).rest.length + xs.length < fuel)
    (hcut : (parse format (bs ++ xs)).rest.length < format.headLen) :
    ∃ c', c.doRead fuel (some xs.length) (some xs) = .ok c' ∧ Took (bs ++ xs) c' := by
  have hp := parse_append bs xs (bad_of_append hgood)
  rw [hp] at hgood hcut
  obtain ⟨ibuf, hholds, hcap, heq⟩ := h.doRead fuel hxs hfit
  obtain ⟨c', hrun, hdec⟩ := decode_ok _ fuel { c with ibuf := ibuf } hholds
    (by rw [List.length_append]; exact hfuel) hgood hcut
  obtain ⟨ibuf', hadj, hh, hz, hc⟩ := hdec.ibuf.adjust
  rw [hrun] at heq
  dsimp only at heq
  rw [hadj] at heq
  refine ⟨_, heq, hdec.connected.trans h.connected, ?_, ?_, hz, ?_⟩
  · rw [hp]
    show c'.calls = _
    rw [hdec.calls, List.map_append]
    exact congrArg (· ++ _) h.calls
  · rw [hp]; exact hh
  · exact hc.trans (hdec.capacity.trans hcap)

/-- `adjust` moves a negative number of bytes. -/
theorem Took.read_overrun (h : Took bs c) (fuel : ℕ) (hgood : (parse format (bs ++ xs)).bad = false)
    (hxs : xs ≠ [])
    (hfit : (xs.length : ℤ) + (parse format bs).rest.length ≤ bufSize)
    (hfuel : (parse format bs).rest.length + xs.length < fuel)
    (hcut : format.headLen ≤ (parse format (bs ++ xs)).rest.length) :
    c.doRead fuel (some xs.length) (some xs) = .error .outOfBounds := by
  have hp := parse_append bs xs (bad_of_append hgood)
  rw [hp] at hgood hcut
  obtain ⟨ibuf, hholds, hcap, heq⟩ := h.doRead fuel hxs hfit
  obtain ⟨c', hrun, hneg, hend⟩ := decode_overrun _ fuel { c with ibuf := ibuf } hholds
    (by rw [List.length_append]; exact hfuel) hgood hcut
  -- `memmove` gets a negative length
  have hadj : c'.ibuf.adjust = .error .outOfBounds := by
    unfold IOBuf.adjust
    rw [if_pos (by omega), if_pos (by omega), if_neg (by omega)]
  rw [hrun] at heq
  dsimp only at heq
  rw [hadj] at heq
  exact heq

end TcpClient

namespace TcpConn

variable {c : TcpConn} {os : List UInt8}

/-- **A `send_message` that returned -1**, with `os` pending before. -/
inductive Refused (os : List UInt8) (m : Message) (c : TcpConn) : TcpConn → Prop
  /-- the head found no room, and nothing has changed -/
  | head (h : 8388608 < os.length + messageHeadLen) : Refused os m c c
  /-- the body found none, and `pop` took the head's length off the front of what was there -/
  | body {obuf ob : ReactorBuf} {p p' : BufPool} (h : os.length + messageHeadLen ≤ 8388608)
      (holds : obuf.Holds (os ++ (MsgHead.ofMessage m).toBytes)) (atStart : obuf.AtStart)
      (pop : obuf.pop messageHeadLen p = .ok (ob, p')) : Refused os m c { c with obuf := ob }

/-- The head of a message, and its length taken off the front again. -/
theorem pop_head (m : Message) {obuf : ReactorBuf}
    (hb : obuf.Holds (os ++ (MsgHead.ofMessage m).toBytes)) (p : BufPool) :
    ∃ ob p', obuf.pop messageHeadLen p = .ok (ob, p') ∧
      ob.Holds ((os ++ (MsgHead.ofMessage m).toBytes).drop messageHeadLen) ∧ ob.Tight := by
  have h8 : (MsgHead.ofMessage m).toBytes.length = messageHeadLen := MsgHead.length_toBytes _
  have hlen : messageHeadLen ≤ (os ++ (MsgHead.ofMessage m).toBytes).length := by
    rw [List.length_append]; omega
  have hne : os ++ (MsgHead.ofMessage m).toBytes ≠ [] :=
    List.length_pos_iff.1 (Nat.lt_of_lt_of_le (by decide) hlen)
  exact ReactorBuf.pop_drop hb hne hlen p

/-- **`send_message` of the server** puts the whole frame behind the pending bytes, meets the
memory limit, or returns -1. -/
theorem sendMessage_cases (ho : c.obuf.Holds os) (h0 : c.obuf.AtStart) (m : Message) (p : BufPool)
    (junk : ℤ → UInt8) :
    c.sendMessage m junk p = .error .memoryLimit ∨
      (∃ c' p', c.sendMessage m junk p = .ok (-1, false, c', p') ∧ Refused os m c c') ∨
      ∃ obuf p', c.sendMessage m junk p =
          .ok (0, decide (c.obuf.length = 0), { c with obuf := obuf }, p') ∧
        obuf.Holds (os ++ coding.frame m) ∧ obuf.AtStart := by
  have h8 : (MsgHead.ofMessage m).toBytes.length = messageHeadLen := MsgHead.length_toBytes _
  unfold sendMessage
  dsimp only
  -- a head that is taken found room
  by_cases hfull : 8388608 < os.length + messageHeadLen
  · rw [ReactorBuf.sendData_refused ho h0 (by rw [h8]; omega)]
    dsimp only
    rw [if_pos (by decide)]
    exact Or.inr (Or.inl ⟨_, _, rfl, .head hfull⟩)
  rcases ReactorBuf.sendData_cases ho h0 (MsgHead.ofMessage m).toBytes p junk with
    ⟨herr, -⟩ | ⟨hbig, -⟩ | ⟨ob, p1, hok, hb, hb0⟩
  · rw [herr]; exact Or.inl rfl
  · rw [h8] at hbig
    omega
  rw [hok]
  dsimp only
  rw [if_neg (by decide)]
  rcases ReactorBuf.sendData_cases hb hb0 m.data p1 junk with
    ⟨herr, -⟩ | ⟨-, p2, hrej⟩ | ⟨ob', p2, hok', hb', hb0'⟩
  · rw [herr]; exact Or.inl rfl
  · obtain ⟨ob', p3, hpop, -, -⟩ := pop_head m hb p2
    rw [hrej]
    dsimp only
    rw [if_pos (by decide), hpop]
    exact Or.inr (Or.inl ⟨_, _, rfl, .body (by omega) hb hb0 hpop⟩)
  · rw [hok']
    dsimp only
    rw [if_neg (by decide)]
    rw [List.append_assoc] at hb'
    exact Or.inr (Or.inr ⟨ob', p2, rfl, hb', hb0'⟩)

/-- The write loop hands bytes off the front to the kernel, in order. -/
theorem writeLoop_cases : ∀ (rooms : List (Option ℕ)) (os : List UInt8) (obuf : ReactorBuf),
    obuf.Holds os → obuf.AtStart →
    ∃ e written obuf' rest, writeLoop rooms obuf = .ok (e, written, obuf') ∧
      os = written ++ rest ∧ obuf'.Holds rest ∧ obuf'.AtStart ∧ (none ∉ rooms → e = .done) := by
  intro rooms
  induction rooms with
  | nil => exact fun os obuf ho h0 => ⟨.done, [], obuf, os, rfl, rfl, ho, h0, fun _ => rfl⟩
  | cons room rooms ih =>
    intro os obuf ho h0
    have hlen := ho.length
    unfold writeLoop
    by_cases hl : obuf.length = 0
    · rw [if_pos hl]
      exact ⟨.done, [], obuf, os, rfl, rfl, ho, h0, fun _ => rfl⟩
    rw [if_neg hl]
    have hne : os ≠ [] := fun h => hl (by rw [hlen, h]; rfl)
    have hbuf := ho.buf_ne_none hne
    rcases room with _ | room
    · -- an error of `write` ends the loop before it has taken anything
      rw [ReactorBuf.write2fd_error h0 hbuf]
      exact ⟨.failed, [], obuf, os, rfl, rfl, ho, h0, fun h => absurd List.mem_cons_self h⟩
    obtain ⟨taken, ob, rest, hw, hos, hb, hb0⟩ := ReactorBuf.write2fd_ok ho h0 hbuf room
    rw [hw]
    dsimp only
    rw [if_neg (by omega)]
    by_cases ht : taken = []
    · -- `EAGAIN` ends the loop, and the rest waits for the next event
      subst ht
      exact ⟨.done, [], ob, rest, rfl, hos, hb, hb0, fun _ => rfl⟩
    · have hpos := List.length_pos_iff.2 ht
      obtain ⟨e, more, ob', rest', hrun, hrest, hb', hb0', hdone⟩ := ih rest ob hb hb0
      rw [if_neg (by omega), hrun]
      refine ⟨e, _, ob', rest', rfl, ?_, hb', hb0', fun h => hdone (fun h' => h (List.mem_cons_of_mem _ h'))⟩
      rw [hos, hrest, List.append_assoc]

theorem doWrite_ok (ho : c.obuf.Holds os) (h0 : c.obuf.AtStart) (rooms : List ℕ) (p : BufPool) :
    ∃ written obuf rest, c.doWrite (rooms.map some) p =
        .ok (written, decide (obuf.length = 0), { c with obuf := obuf }, p) ∧
      os = written ++ rest ∧ obuf.Holds rest ∧ obuf.AtStart := by
  obtain ⟨e, written, obuf, rest, hrun, hos, hb, hb0, hdone⟩ :=
    writeLoop_cases (rooms.map some) os c.obuf ho h0
  obtain rfl := hdone (by simp)
  unfold doWrite
  rw [hrun]
  exact ⟨written, obuf, rest, rfl, hos, hb, hb0⟩

end TcpConn

/-- A connection at the server and its client. -/
structure Downstream where
  conn : TcpConn
  /-- the loop of the server waits until the socket can take bytes -/
  epollout : Bool
  /-- written and not read yet -/
  wire : List UInt8
  client : TcpClient
  /-- the messages for which `send_message` returned 0 -/
  sent : List Message
  /-- the bytes that the client has read -/
  received : List UInt8

namespace Downstream

/-- One thing that happens on the connection. -/
inductive Event
  /-- `TCPConn::send_message`, with what it finds in the pool and in fresh memory -/
  | send (m : Message) (pool : BufPool) (junk : ℤ → UInt8)
  /-- `TCPConn::do_write`, with the room that the kernel has at each `write` -/
  | write (rooms : List ℕ) (pool : BufPool)
  /-- `TCPClient::do_read` of `n` bytes -/
  | read (n : ℕ)

/-- A connection that was just made. -/
def start (junkOut junkIn : ℤ → UInt8) : Downstream :=
  ⟨TcpConn.new, false, [], TcpClient.new junkOut junkIn, [], []⟩

/-- The server's loop calls `do_write` only while it waits for `EPOLLOUT`. The fuel of the
client's decode loop is enough for the bytes in its buffer. -/
def step (l : Downstream) : Event → Except Crash Downstream
  | .send m pool junk =>
    match l.conn.sendMessage m junk pool with
    | .error f => .error f
    | .ok (ret, add, conn, _) =>
      .ok { l with
        conn := conn
        epollout := l.epollout || add
        sent := if ret = 0 then l.sent ++ [m] else l.sent }
  | .write rooms pool =>
    if l.epollout = false then .ok l
    else
      match l.conn.doWrite (rooms.map some) pool with
      | .error f => .error f
      | .ok (written, del, conn, _) =>
        .ok { l with conn := conn, epollout := !del, wire := l.wire ++ written }
  | .read n =>
    let bs := l.wire.take n
    match l.client.doRead (l.client.ibuf.length.toNat + bs.length + 1) (some bs.length) (some bs) with
    | .error f => .error f
    | .ok client =>
      .ok { l with
        client := client
        wire := l.wire.drop n
        received := l.received ++ bs }

/-- What the events may be: a message has a size that the format allows and is framed, that
is, `send_message` returns 0; a read takes what is there, and it fits the buffer. -/
def Allowed (_ : List Event) (l : Downstream) : Event → Prop
  | .send m pool junk => m.Sized ∧
      ∀ ret add conn p, l.conn.sendMessage m junk pool = .ok (ret, add, conn, p) → ret = 0
  | .write _ _ => True
  | .read n => 1 ≤ n ∧ n ≤ l.wire.length ∧ n + l.client.ibuf.length ≤ TcpClient.bufSize

/-- The messages whose last byte is among the first `n`. -/
def arrived (l : Downstream) (n : ℕ) : List Message := coding.arrived n l.sent

/-- **The client has been called for the messages that arrived in full**, in order and once
each, with all of their bytes; the bytes of an incomplete message are in its buffer. -/
structure Delivered (l : Downstream) : Prop where
  received : l.received <+: coding.stream l.sent
  calls : l.client.calls = (l.arrived l.received.length).map Message.call
  ibuf : l.client.ibuf.Holds (l.received.drop (coding.stream (l.arrived l.received.length)).length)
  head : l.client.ibuf.head = 0

/-- **Where a read may end**: at the end of a message, or within the head of the next. -/
def CutsClean (_ : List Event) (l : Downstream) : Event → Prop
  | .send _ _ _ => True
  | .write _ _ => True
  | .read n => l.received.length + n <
      (coding.stream (l.arrived (l.received.length + n))).length + messageHeadLen

/-- **The bytes of the framed messages**, from the client's parser back to the server. -/
structure Flow (l : Downstream) : Prop where
  atStart : l.conn.obuf.AtStart
  sized : ∀ m ∈ l.sent, m.Sized
  bytes : ∃ os, l.conn.obuf.Holds os ∧ coding.stream l.sent = l.received ++ l.wire ++ os
  client : l.client.Took l.received

variable {l : Downstream}

theorem flow_start (junkOut junkIn : ℤ → UInt8) : Flow (start junkOut junkIn) where
  atStart := trivial
  sized := fun m hm => by cases hm
  bytes := ⟨[], ReactorBuf.holds_empty, rfl⟩
  client := by
    have hnil : parse format [] = ⟨[], [], false⟩ := parse_short format.headLen_pos
    refine ⟨rfl, ?_, ?_, rfl, rfl⟩ <;> rw [show (start junkOut junkIn).received = [] from rfl, hnil]
    · rfl
    · exact IOBuf.holds_new (by decide) junkIn

/-- What a read of `n` bytes leaves at the receiver is still a part of the stream. -/
theorem Flow.read_prefix (h : Flow l) (n : ℕ) :
    l.received ++ l.wire.take n <+: coding.stream l.sent := by
  obtain ⟨os, -, hos⟩ := h.bytes
  exact prefix_of_wire hos n

theorem Flow.received_prefix (h : Flow l) : l.received <+: coding.stream l.sent :=
  (List.prefix_append _ _).trans (h.read_prefix 0)

theorem Flow.delivered (h : Flow l) : Delivered l where
  received := h.received_prefix
  calls := h.client.calls.trans (calls_messages h.sized h.received_prefix)
  ibuf := by
    have hi := h.client.ibuf
    rw [parse_messages h.sized h.received_prefix] at hi
    exact hi
  head := h.client.head

theorem Flow.send (h : Flow l) {m : Message} {pool : BufPool} {junk : ℤ → UInt8} {pre : List Event}
    (hm : Allowed pre l (.send m pool junk)) :
    (∃ u, l.step (.send m pool junk) = .ok u ∧ Flow u) ∨
      ∃ f, l.step (.send m pool junk) = .error f ∧ f = .memoryLimit := by
  obtain ⟨os, ho, hos⟩ := h.bytes
  unfold step
  dsimp only
  rcases TcpConn.sendMessage_cases ho h.atStart m pool junk with
    herr | ⟨c', p', hrej, -⟩ | ⟨obuf, p', hacc, hb, hb0⟩
  · rw [herr]; exact Or.inr ⟨_, rfl, rfl⟩
  · exact absurd (hm.2 _ _ _ _ hrej) (by decide)
  · rw [hacc]
    refine Or.inl ⟨_, rfl, ⟨hb0, ?_, ⟨_, hb, ?_⟩, h.client⟩⟩
    · intro m' hm'
      rcases List.mem_append.1 hm' with h1 | h1
      · exact h.sized m' h1
      · rw [List.mem_singleton.1 h1]; exact hm.1
    · show coding.stream (l.sent ++ [m]) = l.received ++ l.wire ++ (os ++ coding.frame m)
      rw [Coding.stream_snoc, hos]
      simp only [List.append_assoc]

theorem Flow.write (h : Flow l) (rooms : List ℕ) (pool : BufPool) :
    ∃ u, l.step (.write rooms pool) = .ok u ∧ Flow u := by
  obtain ⟨os, ho, hos⟩ := h.bytes
  unfold step
  dsimp only
  by_cases he : l.epollout = false
  · rw [if_pos he]
    exact ⟨l, rfl, h⟩
  obtain ⟨written, obuf, rest, hrun, hsplit, hb, hb0⟩ := TcpConn.doWrite_ok ho h.atStart rooms pool
  rw [if_neg he, hrun]
  refine ⟨_, rfl, ⟨hb0, h.sized, ⟨rest, hb, ?_⟩, h.client⟩⟩
  show coding.stream l.sent = l.received ++ (l.wire ++ written) ++ rest
  rw [hos, hsplit]
  simp only [List.append_assoc]

/-- What an allowed read brings, and what is then behind the last complete message. -/
theorem Flow.cut (h : Flow l) {n : ℕ} {pre : List Event} (hn : Allowed pre l (.read n)) :
    l.wire.take n ≠ [] ∧ (parse format (l.received ++ l.wire.take n)).bad = false ∧
      ((parse format (l.received ++ l.wire.take n)).rest.length < format.headLen ↔
        CutsClean pre l (.read n)) := by
  obtain ⟨h1, hle, -⟩ := hn
  have htl : (l.wire.take n).length = n := by rw [List.length_take]; omega
  have hlen : (l.received ++ l.wire.take n).length = l.received.length + n := by
    rw [List.length_append, htl]
  have hp := parse_messages h.sized (h.read_prefix n)
  rw [hlen] at hp
  refine ⟨fun hnil => by rw [hnil, List.length_nil] at htl; omega, by rw [hp], ?_⟩
  rw [hp]
  show (List.drop _ _).length < messageHeadLen ↔ _
  rw [List.length_drop, hlen]
  unfold CutsClean arrived
  dsimp only
  have h8 : messageHeadLen = 8 := rfl
  omega

/-- A read that ends where it may keeps the flow. -/
theorem Flow.read (h : Flow l) {n : ℕ} {pre : List Event} (hn : Allowed pre l (.read n))
    (hcut : CutsClean pre l (.read n)) : ∃ u, l.step (.read n) = .ok u ∧ Flow u := by
  obtain ⟨hxs, hgood, hrest⟩ := h.cut hn
  obtain ⟨h1, hle, hfit⟩ := hn
  obtain ⟨os, ho, hos⟩ := h.bytes
  have hlen := h.client.ibuf.length
  have htl : (l.wire.take n).length = n := by rw [List.length_take]; omega
  obtain ⟨c, hread, htook⟩ := h.client.read
    (l.client.ibuf.length.toNat + (l.wire.take n).length + 1) hgood hxs (by omega) (by omega)
    (hrest.2 hcut)
  unfold step
  dsimp only
  rw [hread]
  refine ⟨_, rfl, ⟨h.atStart, h.sized, ⟨os, ho, ?_⟩, htook⟩⟩
  show coding.stream l.sent = l.received ++ l.wire.take n ++ l.wire.drop n ++ os
  rw [hos, List.append_assoc l.received (l.wire.take n), List.take_append_drop]

/-- A read that ends elsewhere crashes the client. -/
theorem Flow.read_overrun (h : Flow l) {n : ℕ} {pre : List Event} (hn : Allowed pre l (.read n))
    (hcut : ¬ CutsClean pre l (.read n)) : l.step (.read n) = .error .outOfBounds := by
  obtain ⟨hxs, hgood, hrest⟩ := h.cut hn
  obtain ⟨h1, hle, hfit⟩ := hn
  have hlen := h.client.ibuf.length
  have htl : (l.wire.take n).length = n := by rw [List.length_take]; omega
  have hread := h.client.read_overrun
    (l.client.ibuf.length.toNat + (l.wire.take n).length + 1) hgood hxs (by omega) (by omega)
    (by rw [← hrest] at hcut; omega)
  unfold step
  dsimp only
  rw [hread]

/-- **From the server's `send_message` to the router of a client.** Along every run on a new
connection, the client has been called for exactly the messages that have arrived, and
keeps the bytes of an incomplete one (a pool at its memory limit may end the server), if
and only if no read ends behind the head of a message that has not arrived in full. -/
theorem delivers_iff (junkOut junkIn : ℤ → UInt8) (es : List Event)
    (hes : Runs.Along step Allowed (start junkOut junkIn) es) :
    Runs.AlwaysUpTo (· = .memoryLimit) step (fun _ l => Delivered l) (start junkOut junkIn) es ↔
      Runs.Along step CutsClean (start junkOut junkIn) es := by
  refine Runs.alwaysUpTo_iff (Q := fun _ l => Flow l) (fun _ _ => Flow.delivered)
    (flow_start junkOut junkIn) ?_ ?_
  · intro pre e hpre l hl hf hC
    have he := hes pre e hpre l hl
    rcases e with ⟨m, pool, junk⟩ | ⟨rooms, pool⟩ | n
    · exact hf.send he
    · exact Or.inl (hf.write rooms pool)
    · exact Or.inl (hf.read he hC)
  · intro pre e hpre l hl hf hstep
    have he := hes pre e hpre l hl
    rcases e with ⟨m, pool, junk⟩ | ⟨rooms, pool⟩ | n
    · trivial
    · trivial
    · by_contra hcut
      rw [hf.read_overrun he hcut] at hstep
      rcases hstep with ⟨u, hu, -⟩ | ⟨f, hf', rfl⟩
      · cases hu
      · cases hf'

/-- A message with one byte, read as far as `n`. -/
def readTo (n : ℕ) : List Event :=
  [.send ⟨1, [5]⟩ BufPool.bare (fun _ => 0), .write [9] BufPool.bare, .read n]

theorem readTo_allowed {n : ℕ} (h1 : 1 ≤ n) (hn : n ≤ 9) :
    Runs.Along step Allowed (start (fun _ => 0) (fun _ => 0)) (readTo n) := by
  have hsend : (TcpConn.new.sendMessage ⟨1, [5]⟩ (fun _ => 0) BufPool.bare).map (·.1) = .ok 0 := by
    decide +kernel
  have hrun : (Runs.run step (start (fun _ => 0) (fun _ => 0))
      [.send ⟨1, [5]⟩ BufPool.bare (fun _ => 0), .write [9] BufPool.bare]).map
        (fun l => (l.wire.length, l.client.ibuf.length)) = .ok (9, 0) := by decide +kernel
  unfold readTo
  rw [Runs.along_cons]
  refine ⟨⟨by unfold Message.Sized; decide, ?_⟩, fun t ht => ?_⟩
  · intro ret add conn p h
    have h' : TcpConn.new.sendMessage ⟨1, [5]⟩ (fun _ => 0) BufPool.bare = .ok (ret, add, conn, p) := h
    rw [h'] at hsend
    exact Except.ok.inj hsend
  rw [Runs.along_cons]
  refine ⟨trivial, fun u hu => ?_⟩
  rw [Runs.along_cons]
  rw [Runs.run_cons_ok.2 ⟨t, ht, Runs.run_cons_ok.2 ⟨u, hu, rfl⟩⟩] at hrun
  obtain ⟨hw, hi⟩ := Prod.mk.inj (Except.ok.inj hrun)
  refine ⟨?_, fun _ _ => Runs.along_nil⟩
  show 1 ≤ n ∧ n ≤ u.wire.length ∧ (n : ℤ) + u.client.ibuf.length ≤ 4194304
  omega

/-- The message is read at once. -/
theorem delivers_whole :
    Runs.AlwaysUpTo (· = .memoryLimit) step (fun _ l => Delivered l)
        (start (fun _ => 0) (fun _ => 0)) (readTo 9) ↔
      Runs.Along step CutsClean (start (fun _ => 0) (fun _ => 0)) (readTo 9) :=
  delivers_iff _ _ (readTo 9) (readTo_allowed (by decide) (by decide))

/-- The last byte comes later, and the client is gone. -/
theorem delivers_fails :
    Runs.Along step Allowed (start (fun _ => 0) (fun _ => 0)) (readTo 8) ∧
      ¬ Runs.AlwaysUpTo (· = .memoryLimit) step (fun _ l => Delivered l)
        (start (fun _ => 0) (fun _ => 0)) (readTo 8) := by
  have hrun : (Runs.run step (start (fun _ => 0) (fun _ => 0)) (readTo 8)).map (fun _ => ()) =
      .error .outOfBounds := by decide +kernel
  refine ⟨readTo_allowed (by decide) (by decide), fun hall => ?_⟩
  rcases hall _ (List.prefix_refl _) with ⟨t, ht, -⟩ | ⟨f, hf, rfl⟩
  · rw [ht] at hrun; cases hrun
  · rw [hf] at hrun; cases hrun

end Downstream

end LbRpc
