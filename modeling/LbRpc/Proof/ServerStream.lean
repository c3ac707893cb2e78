import LbRpc.Reactor.TcpClient
import LbRpc.Proof.Malformed

/-!
# From a client to the server

Messages go from a `TCPClient` over one connection to a `TCPConn`. The client writes when
its socket can take bytes, in any portions; the server reads what has arrived, in any
portions.

* `Upstream.Flow`: what was read, what is on the way and what the client still holds are
  the accepted messages, in order.
* `Upstream.delivers`: the server has made one call for each message that has arrived in
  full, and holds the rest of what it has read.
* `Upstream.dispatches_iff`: the client sends longer messages than the server takes, and
  this is so until the server reads the head of one.
-/

namespace LbRpc

open Framing

namespace TcpClient

variable {c : TcpClient} {os : List UInt8}

/-- **`send_message` takes a message as a whole or not at all.** -/
theorem sendMessage_ok (hc : c.connected = true) (ho : c.obuf.Holds os) (h0 : c.obuf.head = 0)
    (m : Message) :
    (c.sendMessage m = .ok (-1, false, c) ∧ c.obuf.capacity < os.length + (m.data.length + messageHeadLen)) ∨
      ∃ obuf, c.sendMessage m = .ok (0, decide (c.obuf.length = 0), { c with obuf := obuf }) ∧
        obuf.Holds (os ++ coding.frame m) ∧ obuf.head = 0 ∧ obuf.capacity = c.obuf.capacity := by
  have hlen := ho.length
  unfold sendMessage
  rw [if_neg (by simp [hc])]
  dsimp only
  by_cases hroom : c.obuf.capacity - c.obuf.length < m.data.length + messageHeadLen
  · rw [if_pos hroom]
    exact Or.inl ⟨rfl, by omega⟩
  rw [if_neg hroom]
  have h8 : (MsgHead.ofMessage m).toBytes.length = messageHeadLen := MsgHead.length_toBytes _
  -- the head and the body are appended one after the other, and there is room for both
  obtain ⟨b, happ, hb, hb0, hcap⟩ := ho.append (MsgHead.ofMessage m).toBytes h0
    (by omega)
  obtain ⟨b', happ', hb', hb0', hcap'⟩ := hb.append m.data hb0 (by
    rw [List.length_append]
    push_cast
    omega)
  rw [happ]
  dsimp only
  rw [happ']
  refine Or.inr ⟨b', rfl, ?_, hb0', hcap'.trans hcap⟩
  rw [List.append_assoc] at hb'
  exact hb'

/-- **The write loop hands bytes off the front to the kernel**, in order. -/
theorem writeLoop_ok : ∀ (rooms : List ℕ) (os : List UInt8) (obuf : IOBuf), obuf.Holds os →
    obuf.head = 0 →
    ∃ written obuf' rest, writeLoop rooms obuf = .ok (written, obuf') ∧ os = written ++ rest ∧
      obuf'.Holds rest ∧ obuf'.head = 0 ∧ obuf'.capacity = obuf.capacity := by
  intro rooms
  induction rooms with
  | nil => exact fun os obuf ho h0 => ⟨[], obuf, os, rfl, rfl, ho, h0, rfl⟩
  | cons room rooms ih =>
    intro os obuf ho h0
    have hlen := ho.length
    unfold writeLoop
    by_cases hl : obuf.length = 0
    · rw [if_pos hl]
      exact ⟨[], obuf, os, rfl, rfl, ho, h0, rfl⟩
    rw [if_neg hl]
    have hn : obuf.length.toNat = os.length := by omega
    have hle : min room os.length ≤ os.length := Nat.min_le_right _ _
    have htl : (os.take (min room os.length)).length = min room os.length := by
      rw [List.length_take]; omega
    rw [hn, ho.peek_take hle]
    dsimp only
    by_cases ht : os.take (min room os.length) = []
    · -- `EAGAIN` ends the loop, and the rest waits for the next event
      rw [if_pos ht]
      exact ⟨[], obuf, os, rfl, rfl, ho, h0, rfl⟩
    · obtain ⟨b, hadj, hb, hb0, hcap⟩ := (ho.pop_drop hle).adjust
      obtain ⟨more, b', rest, hrun, hrest, hb', hb0', hcap'⟩ := ih _ b hb hb0
      rw [if_neg ht, htl, hadj]
      dsimp only
      rw [hrun]
      refine ⟨_, b', rest, rfl, ?_, hb', hb0', hcap'.trans hcap⟩
      rw [List.append_assoc, ← hrest, List.take_append_drop]

theorem doWrite_ok (ho : c.obuf.Holds os) (h0 : c.obuf.head = 0) (hne : c.obuf.length ≠ 0)
    (rooms : List ℕ) :
    ∃ written obuf rest,
      c.doWrite rooms = .ok (written, decide (obuf.length = 0), { c with obuf := obuf }) ∧
      os = written ++ rest ∧ obuf.Holds rest ∧ obuf.head = 0 ∧ obuf.capacity = c.obuf.capacity := by
  obtain ⟨written, obuf, rest, hrun, hos, hb, hb0, hcap⟩ := writeLoop_ok rooms os c.obuf ho h0
  unfold doWrite
  rw [if_pos ⟨h0, hne⟩, hrun]
  exact ⟨written, obuf, rest, rfl, hos, hb, hb0, hcap⟩

/-- One `write` takes what there is room for. -/
theorem doWrite_one (ho : c.obuf.Holds os) (h0 : c.obuf.head = 0) (hne : os ≠ []) {room : ℕ}
    (hroom : os.length ≤ room) :
    ∃ obuf, c.doWrite [room] = .ok (os, decide (obuf.length = 0), { c with obuf := obuf }) := by
  have hlen := ho.length
  have hpos := List.length_pos_iff.2 hne
  have hn : c.obuf.length.toNat = os.length := by omega
  obtain ⟨b, hadj, -, -, -⟩ := (ho.pop_drop (Nat.le_refl os.length)).adjust
  have hpeek := ho.peek_take (Nat.le_refl os.length)
  rw [List.take_length] at hpeek
  unfold doWrite writeLoop
  rw [if_pos ⟨h0, by omega⟩, if_neg (by omega), hn, Nat.min_eq_right hroom, hpeek]
  dsimp only
  rw [if_neg hne, hadj]
  dsimp only [writeLoop]
  rw [List.append_nil]
  exact ⟨b, rfl⟩

end TcpClient

/-- A client and its connection at the server. -/
structure Upstream where
  client : TcpClient
  /-- the loop of the client waits until the socket can take bytes -/
  epollout : Bool
  /-- written and not read yet -/
  wire : List UInt8
  conn : TcpConn
  /-- the messages that `send_message` accepted -/
  sent : List Message
  /-- the bytes that the server has read -/
  received : List UInt8

namespace Upstream

/-- One thing that happens on the connection. -/
inductive Event
  /-- `TCPClient::send_message` -/
  | send (m : Message)
  /-- `TCPClient::do_write`, with the room that the kernel has at each `write` -/
  | write (rooms : List ℕ)
  /-- `TCPConn::do_read` of `n` bytes, with what it finds in the pool and in fresh memory -/
  | read (n : ℕ) (pool : BufPool) (junk : ℤ → UInt8)

/-- A connection that was just made. -/
def start (junkOut junkIn : ℤ → UInt8) : Upstream :=
  ⟨TcpClient.new junkOut junkIn, false, [], TcpConn.new, [], []⟩

/-- The client's loop calls `do_write` only while it waits for `EPOLLOUT`. -/
def step (l : Upstream) : Event → Except Crash Upstream
  | .send m =>
    match l.client.sendMessage m with
    | .error f => .error f
    | .ok (ret, add, client) =>
      .ok { l with
        client := client
        epollout := l.epollout || add
        sent := if ret = 0 then l.sent ++ [m] else l.sent }
  | .write rooms =>
    if l.epollout = false then .ok l
    else
      match l.client.doWrite rooms with
      | .error f => .error f
      | .ok (written, del, client) =>
        .ok { l with client := client, epollout := !del, wire := l.wire ++ written }
  | .read n pool junk =>
    match l.conn.step ⟨l.wire.take n, pool, junk⟩ with
    | .error f => .error f
    | .ok conn =>
      .ok { l with
        conn := conn
        wire := l.wire.drop n
        received := l.received ++ l.wire.take n }

/-- What the events may be: a message has a size that the server accepts; a read takes
what is there, and it fits the largest buffers with what was left before it. -/
def Allowed (_ : List Event) (l : Upstream) : Event → Prop
  | .send m => m.Sized
  | .write _ => True
  | .read n _ _ => 1 ≤ n ∧ n ≤ l.wire.length ∧ n + l.conn.ibuf.length ≤ 8388608

/-- A read meets a pool below its memory limit. -/
def Event.HasRoom : Event → Prop
  | .send _ => True
  | .write _ => True
  | .read _ pool _ => pool.HasRoom

/-- The messages whose last byte the server has read. -/
def arrived (l : Upstream) : List Message := coding.arrived l.received.length l.sent

/-- **The server has been called for the messages that arrived in full**, in order and
once each, with their own ids and all of their bytes; its input buffer holds what is
behind them, at its start. -/
structure Delivered (l : Upstream) : Prop where
  received : l.received <+: coding.stream l.sent
  calls : l.conn.calls = l.arrived.map Message.call
  opened : l.conn.closed = false
  ibuf : l.conn.ibuf.Holds (l.received.drop (coding.stream l.arrived).length)
  atStart : l.conn.ibuf.AtStart

/-- **The bytes of the accepted messages**, from the server's parser back to the client. None
of the messages is empty, and the client's buffer holds each. -/
structure Flow (l : Upstream) : Prop where
  connected : l.client.connected = true
  head : l.client.obuf.head = 0
  capacity : l.client.obuf.capacity = TcpClient.bufSize
  epollout : l.epollout = true → l.client.obuf.length ≠ 0
  whole : ∀ m ∈ l.sent, m.data ≠ [] ∧ m.data.length ≤ 4194304
  bytes : ∃ os, l.client.obuf.Holds os ∧ coding.stream l.sent = l.received ++ l.wire ++ os
  conn : Arrived l.received l.conn

variable {l : Upstream}

theorem step_send {m : Message} {ret : ℤ} {add : Bool} {client : TcpClient}
    (h : l.client.sendMessage m = .ok (ret, add, client)) :
    l.step (.send m) = .ok { l with
      client := client
      epollout := l.epollout || add
      sent := if ret = 0 then l.sent ++ [m] else l.sent } := by
  unfold step
  dsimp only
  rw [h]

theorem step_write {rooms : List ℕ} {written : List UInt8} {del : Bool} {client : TcpClient}
    (he : l.epollout = true) (h : l.client.doWrite rooms = .ok (written, del, client)) :
    l.step (.write rooms) = .ok { l with
      client := client, epollout := !del, wire := l.wire ++ written } := by
  unfold step
  dsimp only
  rw [if_neg (by simp [he]), h]

theorem step_read {n : ℕ} {pool : BufPool} {junk : ℤ → UInt8} {conn : TcpConn}
    (h : l.conn.step ⟨l.wire.take n, pool, junk⟩ = .ok conn) :
    l.step (.read n pool junk) = .ok { l with
      conn := conn
      wire := l.wire.drop n
      received := l.received ++ l.wire.take n } := by
  unfold step
  dsimp only
  rw [h]

theorem flow_start (junkOut junkIn : ℤ → UInt8) : Flow (start junkOut junkIn) where
  connected := rfl
  head := rfl
  capacity := rfl
  epollout := fun h => by cases h
  whole := fun m hm => by cases hm
  bytes := ⟨[], IOBuf.holds_new (by decide) junkOut, rfl⟩
  conn := arrived_new

/-- Either the heads that are there are within the limit, or the parse has met a bad one. -/
theorem Flow.heads (h : Flow l) {bs : List UInt8} (hbs : bs <+: coding.stream l.sent) :
    (∀ m ∈ coding.begun bs.length l.sent, m.data.length ≤ 65527) ∨ (parse format bs).bad = true := by
  by_cases hall : ∀ m ∈ coding.begun bs.length l.sent, m.data.length ≤ 65527
  · exact Or.inl hall
  · push Not at hall
    refine Or.inr (parse_oversize hbs (fun m hm => ?_) hall)
    have := (h.whole m hm).2
    omega

/-- No message is empty, so no read can end with a frame without a body. -/
theorem Flow.not_endsEmpty (h : Flow l) {bs : List UInt8} (hbs : bs <+: coding.stream l.sent) :
    ¬ EndsEmpty bs := by
  rintro ⟨hgood, -, f, hf, hbody⟩
  rcases h.heads hbs with hall | hbad
  · rw [parse_heads hbs hall] at hf
    obtain ⟨m, hm, rfl⟩ := List.mem_map.1 (List.mem_of_getLast? hf)
    exact (h.whole m ((Coding.arrived_prefix _ _).subset hm)).1 hbody
  · rw [hbad] at hgood
    cases hgood

/-- What a read of `n` bytes leaves at the receiver is still a part of the stream. -/
theorem Flow.read_prefix (h : Flow l) (n : ℕ) :
    l.received ++ l.wire.take n <+: coding.stream l.sent := by
  obtain ⟨os, -, hos⟩ := h.bytes
  exact prefix_of_wire hos n

theorem Flow.received_prefix (h : Flow l) : l.received <+: coding.stream l.sent :=
  (List.prefix_append _ _).trans (h.read_prefix 0)

/-- **Every message is delivered** if and only if those are within the limit whose head the
server has read. -/
theorem Flow.delivered_iff (h : Flow l) :
    Delivered l ↔ ∀ m ∈ coding.begun l.received.length l.sent, m.data.length ≤ 65527 := by
  constructor
  · intro hd
    rcases h.heads h.received_prefix with hall | hbad
    · exact hall
    · -- the bad head has closed the connection
      have hopen := hd.opened
      rw [h.conn.closed, hbad] at hopen
      cases hopen
  · intro hall
    have hp := parse_heads h.received_prefix hall
    have hgood : (parse format l.received).bad = false := by rw [hp]
    obtain ⟨hi, h0⟩ := h.conn.ibuf hgood
    refine ⟨h.received_prefix, ?_, ?_, ?_, h0⟩
    · rw [h.conn.calls]
      exact calls_heads h.received_prefix hall
    · rw [h.conn.closed, hgood]
    · rw [hp] at hi
      exact hi

/-- The client takes a message, or has no room for it and leaves no trace. -/
theorem Flow.send (h : Flow l) {m : Message} (hm : m.data ≠ []) :
    ∃ u, l.step (.send m) = .ok u ∧ Flow u := by
  obtain ⟨os, ho, hos⟩ := h.bytes
  have hpos := List.length_pos_iff.2 hm
  rcases TcpClient.sendMessage_ok h.connected ho h.head m with ⟨hrej, -⟩ | ⟨obuf, hacc, hb, hb0, hcap⟩
  · refine ⟨_, step_send hrej, ⟨h.connected, h.head, h.capacity, ?_, h.whole, ⟨os, ho, hos⟩, h.conn⟩⟩
    dsimp only
    rw [Bool.or_false]
    exact h.epollout
  · have hfl : (coding.frame m).length = messageHeadLen + m.data.length := coding.length_frame m
    have hlen := hb.length
    have hfits := hb.fits
    rw [List.length_append] at hlen
    rw [hcap, h.capacity, show TcpClient.bufSize = 4194304 from rfl] at hfits
    refine ⟨_, step_send hacc, ⟨h.connected, hb0, hcap.trans h.capacity, ?_, ?_, ⟨_, hb, ?_⟩, h.conn⟩⟩
    · -- the frame is not empty, so there is something to write
      intro _
      show obuf.length ≠ 0
      omega
    · intro m' hm'
      rcases List.mem_append.1 hm' with h1 | h1
      · exact h.whole m' h1
      · rw [List.mem_singleton.1 h1]
        exact ⟨hm, by omega⟩
    · show coding.stream (l.sent ++ [m]) = l.received ++ l.wire ++ (os ++ coding.frame m)
      rw [Coding.stream_snoc, hos]
      simp only [List.append_assoc]

theorem Flow.write (h : Flow l) (rooms : List ℕ) : ∃ u, l.step (.write rooms) = .ok u ∧ Flow u := by
  obtain ⟨os, ho, hos⟩ := h.bytes
  by_cases he : l.epollout = false
  · exact ⟨l, if_pos he, h⟩
  have hout : l.epollout = true := by simpa using he
  obtain ⟨written, obuf, rest, hrun, hsplit, hb, hb0, hcap⟩ :=
    TcpClient.doWrite_ok ho h.head (h.epollout hout) rooms
  refine ⟨_, step_write hout hrun, ⟨h.connected, hb0, hcap.trans h.capacity, ?_, h.whole,
    ⟨rest, hb, ?_⟩, h.conn⟩⟩
  · intro hdel
    simpa using hdel
  · show coding.stream l.sent = l.received ++ (l.wire ++ written) ++ rest
    rw [hos, hsplit]
    simp only [List.append_assoc]

/-- The connection at the server keeps its place in the stream, or is closed already. -/
theorem Flow.read_conn (h : Flow l) {n : ℕ} (pool : BufPool) (junk : ℤ → UInt8) (hn : 1 ≤ n)
    (hle : n ≤ l.wire.length) (hfit : n + l.conn.ibuf.length ≤ 8388608) :
    (∃ c, l.conn.step ⟨l.wire.take n, pool, junk⟩ = .ok c ∧ Arrived (l.received ++ l.wire.take n) c) ∨
      (l.conn.step ⟨l.wire.take n, pool, junk⟩ = .error .memoryLimit ∧ ¬ pool.HasRoom) := by
  have htl : (l.wire.take n).length = n := by rw [List.length_take]; omega
  have hxs : l.wire.take n ≠ [] := fun hnil => by rw [hnil] at htl; simp at htl; omega
  -- behind a bad head the connection is closed, and the bytes go nowhere
  rcases hb : (parse format l.received).bad with _ | _
  · have hlen := (h.conn.ibuf hb).1.length
    exact step_arrived (r := ⟨l.wire.take n, pool, junk⟩) h.conn hxs
      (by show ((l.wire.take n).length : ℤ) + _ ≤ _; omega) (h.not_endsEmpty (h.read_prefix n))
  · exact Or.inl ⟨_, step_closed (r := ⟨l.wire.take n, pool, junk⟩) h.conn hb⟩

theorem Flow.read (h : Flow l) {n : ℕ} {pool : BufPool} {junk : ℤ → UInt8} (hn : 1 ≤ n)
    (hle : n ≤ l.wire.length) (hfit : n + l.conn.ibuf.length ≤ 8388608) :
    (∃ u, l.step (.read n pool junk) = .ok u ∧ Flow u) ∨
      (l.step (.read n pool junk) = .error .memoryLimit ∧ ¬ pool.HasRoom) := by
  obtain ⟨os, ho, hos⟩ := h.bytes
  rcases h.read_conn pool junk hn hle hfit with ⟨c, hc, harr⟩ | ⟨herr, hroom⟩
  · refine Or.inl ⟨_, step_read hc, ⟨h.connected, h.head, h.capacity, h.epollout, h.whole,
      ⟨os, ho, ?_⟩, harr⟩⟩
    show coding.stream l.sent = l.received ++ l.wire.take n ++ l.wire.drop n ++ os
    rw [hos, List.append_assoc l.received (l.wire.take n), List.take_append_drop]
  · unfold step
    dsimp only
    rw [herr]
    exact Or.inr ⟨rfl, hroom⟩

/-- What the events may be when messages of every size are sent: none is empty; a read takes
what is there, and it fits the largest buffers with what was left before it. -/
def Permitted (_ : List Event) (l : Upstream) : Event → Prop
  | .send m => m.data ≠ []
  | .write _ => True
  | .read n _ _ => 1 ≤ n ∧ n ≤ l.wire.length ∧ n + l.conn.ibuf.length ≤ 8388608

theorem Allowed.permitted {pre : List Event} {e : Event} (h : Allowed pre l e) : Permitted pre l e := by
  rcases e with m | rooms | ⟨n, pool, junk⟩
  · exact List.length_pos_iff.1 h.1
  · trivial
  · exact h

/-- An event keeps the flow, or is a read at the memory limit of the pool. -/
theorem Flow.step (h : Flow l) {pre : List Event} {e : Event} (he : Permitted pre l e) :
    (∃ u, l.step e = .ok u ∧ Flow u) ∨ (l.step e = .error .memoryLimit ∧ ¬ e.HasRoom) := by
  rcases e with m | rooms | ⟨n, pool, junk⟩
  · exact Or.inl (h.send he)
  · exact Or.inl (h.write rooms)
  · exact h.read he.1 he.2.1 he.2.2

/-- **The flow is kept along every run**, up to a read that meets the pool at its limit. -/
theorem flow_always (junkOut junkIn : ℤ → UInt8) (es : List Event)
    (hes : Runs.Along step Permitted (start junkOut junkIn) es) :
    Runs.AlwaysUpTo (fun f => f = .memoryLimit ∧ ∃ e ∈ es, ¬ e.HasRoom) step (fun _ l => Flow l)
      (start junkOut junkIn) es := by
  refine Runs.alwaysUpTo_of_step (flow_start junkOut junkIn) ?_
  intro pre e hpre l hl hf
  rcases hf.step (hes pre e hpre l hl) with hok | ⟨herr, hroom⟩
  · exact Or.inl hok
  · exact Or.inr ⟨_, herr, rfl, e, hpre.subset (by simp), hroom⟩

/-- Only `send_message` adds a message. -/
theorem step_sent {e : Event} {u : Upstream} (h : l.step e = .ok u) :
    ∀ m ∈ u.sent, m ∈ l.sent ∨ e = .send m := by
  intro m hm
  unfold step at h
  rcases e with m' | rooms | ⟨n, pool, junk⟩ <;> dsimp only at h
  · rcases hs : l.client.sendMessage m' with f | ⟨ret, add, client⟩
    · rw [hs] at h; cases h
    rw [hs] at h
    obtain rfl := Except.ok.inj h
    dsimp only at hm
    by_cases hret : ret = 0
    · rw [if_pos hret] at hm
      rcases List.mem_append.1 hm with h1 | h1
      · exact Or.inl h1
      · rw [List.mem_singleton.1 h1]; exact Or.inr rfl
    · rw [if_neg hret] at hm
      exact Or.inl hm
  · by_cases he : l.epollout = false
    · rw [if_pos he] at h
      obtain rfl := Except.ok.inj h
      exact Or.inl hm
    rw [if_neg he] at h
    rcases hw : l.client.doWrite rooms with f | ⟨written, del, client⟩
    · rw [hw] at h; cases h
    · rw [hw] at h
      obtain rfl := Except.ok.inj h
      exact Or.inl hm
  · rcases hc : l.conn.step ⟨l.wire.take n, pool, junk⟩ with f | conn
    · rw [hc] at h; cases h
    · rw [hc] at h
      obtain rfl := Except.ok.inj h
      exact Or.inl hm

/-- **From `send_message` to the server's router.** Along every run of allowed events on a
new connection, the server has been called for exactly the messages that have arrived;
only a read that meets the pool at its memory limit can end the run. -/
theorem delivers (junkOut junkIn : ℤ → UInt8) (es : List Event)
    (hes : Runs.Along step Allowed (start junkOut junkIn) es) :
    Runs.AlwaysUpTo (fun f => f = .memoryLimit ∧ ∃ e ∈ es, ¬ e.HasRoom) step
      (fun _ l => Delivered l) (start junkOut junkIn) es := by
  have hflow := flow_always junkOut junkIn es fun pre e hpre l hl => (hes pre e hpre l hl).permitted
  -- every message is within the limit, so every head that was read is
  have hsized : Runs.Throughout step (fun _ l => ∀ m ∈ l.sent, m.Sized) (start junkOut junkIn) es := by
    refine Runs.throughout_of_along (C := Allowed) (fun m hm => by cases hm) ?_ hes
    intro pre e l u hl he hu m hm
    rcases step_sent hu m hm with h | rfl
    · exact hl m h
    · exact he
  intro pre hpre
  rcases hflow pre hpre with ⟨l, hl, hf⟩ | herr
  · refine Or.inl ⟨l, hl, hf.delivered_iff.2 fun m hm => ?_⟩
    exact (hsized pre hpre l hl m ((Coding.begun_prefix _ _).subset hm)).2
  · exact Or.inr herr

/-- A message of which the server reads the first half of the head. -/
def cutHead : List Event := [.send ⟨1, [5]⟩, .write [4], .read 4 BufPool.bare (fun _ => 0)]

theorem cutHead_allowed : Runs.Along step Allowed (start (fun _ => 0) (fun _ => 0)) cutHead := by
  have hrun : (Runs.run step (start (fun _ => 0) (fun _ => 0)) [.send ⟨1, [5]⟩, .write [4]]).map
      (fun l => (l.wire.length, l.conn.ibuf.length)) = .ok (4, 0) := by decide +kernel
  unfold cutHead
  rw [Runs.along_cons]
  refine ⟨by show Message.Sized _; unfold Message.Sized; decide, fun t ht => ?_⟩
  rw [Runs.along_cons]
  refine ⟨trivial, fun u hu => ?_⟩
  rw [Runs.along_cons]
  rw [Runs.run_cons_ok.2 ⟨t, ht, Runs.run_cons_ok.2 ⟨u, hu, rfl⟩⟩] at hrun
  obtain ⟨hw, hi⟩ := Prod.mk.inj (Except.ok.inj hrun)
  refine ⟨?_, fun _ _ => Runs.along_nil⟩
  show 1 ≤ 4 ∧ 4 ≤ u.wire.length ∧ (4 : ℤ) + u.conn.ibuf.length ≤ 8388608
  rw [hw, hi]
  decide

theorem delivers_cutHead :
    Runs.AlwaysUpTo (fun f => f = .memoryLimit ∧ ∃ e ∈ cutHead, ¬ e.HasRoom) step
      (fun _ l => Delivered l) (start (fun _ => 0) (fun _ => 0)) cutHead :=
  delivers (fun _ => 0) (fun _ => 0) _ cutHead_allowed

/-- **Messages of every size.** `send_message` takes whatever its own buffer has room for. In
every state of every run, the messages that have arrived are delivered, and the connection
is open, if and only if no message is above the server's limit whose head it has read. -/
theorem dispatches_iff (junkOut junkIn : ℤ → UInt8) (es : List Event)
    (hes : Runs.Along step Permitted (start junkOut junkIn) es) :
    Runs.AlwaysUpTo (fun f => f = .memoryLimit ∧ ∃ e ∈ es, ¬ e.HasRoom) step
      (fun _ l => Delivered l ↔ ∀ m ∈ coding.begun l.received.length l.sent, m.data.length ≤ 65527)
      (start junkOut junkIn) es :=
  (flow_always junkOut junkIn es hes).imp fun _ _ => Flow.delivered_iff

theorem dispatches_cutHead :
    Runs.AlwaysUpTo (fun f => f = .memoryLimit ∧ ∃ e ∈ cutHead, ¬ e.HasRoom) step
      (fun _ l => Delivered l ↔ ∀ m ∈ coding.begun l.received.length l.sent, m.data.length ≤ 65527)
      (start (fun _ => 0) (fun _ => 0)) cutHead :=
  dispatches_iff (fun _ => 0) (fun _ => 0) _ fun pre e hpre l hl =>
    (cutHead_allowed pre e hpre l hl).permitted

/-- A message is sent, written in one piece and read in one piece. -/
def atOnce (m : Message) : List Event :=
  [.send m, .write [(coding.frame m).length],
    .read (coding.frame m).length BufPool.bare (fun _ => 0)]

/-- **A message between the two limits** is accepted, and its head closes the connection. -/
theorem atOnce_closes {m : Message} (hlong : 65527 < m.data.length) (hfit : m.data.length ≤ 4194296) :
    ∃ l, Runs.run step (start (fun _ => 0) (fun _ => 0)) (atOnce m) = .ok l ∧
      l.sent = [m] ∧ l.received = coding.frame m ∧ l.conn.closed = true ∧ l.conn.calls = [] := by
  have hlen : (coding.frame m).length = messageHeadLen + m.data.length := coding.length_frame m
  have h8 : messageHeadLen = 8 := rfl
  have hne : coding.frame m ≠ [] := List.length_pos_iff.1 (by omega)
  have hnew : (TcpClient.new (fun _ => 0) (fun _ => 0)).obuf.Holds [] := IOBuf.holds_new (by decide) _
  rcases TcpClient.sendMessage_ok rfl hnew rfl m with ⟨-, hfull⟩ | ⟨obuf, hacc, hb, hb0, -⟩
  · have hcap : (TcpClient.new (fun _ => 0) (fun _ => 0)).obuf.capacity = 4194304 := rfl
    rw [hcap, List.length_nil] at hfull
    omega
  rw [List.nil_append] at hb
  obtain ⟨obuf', hwrite⟩ := TcpClient.doWrite_one
    (c := { TcpClient.new (fun _ => 0) (fun _ => 0) with obuf := obuf }) hb hb0 hne (Nat.le_refl _)
  -- the head of the message is a bad one, and nothing is in front of it
  have hp : parse format (coding.frame m) = ⟨[], [], true⟩ := by
    have h1 : format.headLen ≤ (coding.frame m).length := by
      show messageHeadLen ≤ _
      omega
    have hhead := take_head (C := coding) m [] h1
    rw [List.append_nil, List.take_length] at hhead
    refine parse_bad h1 ?_
    rw [hhead]
    exact Message.bad_of_long hlong (by omega)
  have hconn := step_arrived (r := ⟨coding.frame m, BufPool.bare, fun _ => 0⟩) arrived_new hne
    (by rw [parse_nil]; show (((coding.frame m).length : ℕ) : ℤ) + ((0 : ℕ) : ℤ) ≤ _; omega)
    (not_endsEmpty_of_stop (by rw [List.nil_append, hp]))
  rcases hconn with ⟨conn, hread, harr⟩ | ⟨-, hroom⟩
  swap
  · exact absurd BufPool.bare_hasRoom hroom
  rw [List.nil_append] at harr
  have hclosed : conn.closed = true := by rw [harr.closed, hp]
  have hcalls : conn.calls = [] := by rw [harr.calls, hp]; rfl
  have hsend := step_send (l := start (fun _ => 0) (fun _ => 0)) hacc
  have hread' : ∀ l : Upstream, l.conn = TcpConn.new → l.wire = coding.frame m → l.received = [] →
      l.step (.read (coding.frame m).length BufPool.bare (fun _ => 0)) =
        .ok { l with conn := conn, wire := [], received := coding.frame m } := by
    intro l hl hw hr
    have h := step_read (l := l) (n := (coding.frame m).length) (by
      rw [hl, hw, List.take_length]
      exact hread)
    rw [hw, hr, List.take_length, List.drop_length] at h
    exact h
  refine ⟨_, Runs.run_cons_ok.2 ⟨_, hsend, Runs.run_cons_ok.2 ⟨_, step_write ?_ hwrite,
    Runs.run_cons_ok.2 ⟨_, hread' _ rfl (List.nil_append _) rfl, rfl⟩⟩⟩, ?_, rfl, hclosed, hcalls⟩
  · rfl
  · rfl

/-- The shortest message above the limit. -/
def longMessage : Message := ⟨1, List.replicate 65528 0⟩

/-- The client takes a message of 65528 bytes, and the server drops the connection over it. -/
theorem dispatches_fails :
    ∃ l, Runs.run step (start (fun _ => 0) (fun _ => 0)) (atOnce longMessage) = .ok l ∧
      l.sent = [longMessage] ∧ l.received = coding.frame longMessage ∧
      l.conn.closed = true ∧ l.conn.calls = [] ∧ ¬ Delivered l := by
  have hlen : longMessage.data.length = 65528 := List.length_replicate
  obtain ⟨l, hrun, hsent, hrec, hclosed, hcalls⟩ :=
    atOnce_closes (m := longMessage) (by rw [hlen]; decide) (by rw [hlen]; decide)
  refine ⟨l, hrun, hsent, hrec, hclosed, hcalls, fun h => ?_⟩
  have hopen := h.opened
  rw [hclosed] at hopen
  cases hopen

end Upstream

end LbRpc
