import LbRpc.Reactor.Udp

/-!
# Which datagrams are dispatched

* `udp_dispatches`: `do_read` dispatches the datagrams that announce their own length,
  with their own bytes, whatever is left in `_read_buf`.
* `udp_delivers_iff`: what `send_message` accepts arrives exactly up to a body of 65519
  bytes; behind that `_write_buf` is too small, by as much as the head takes.
-/

namespace LbRpc

namespace UdpSocket

/-- **What `do_read` is to do with a datagram**: it is dispatched if its head is there and
announces the rest. -/
def dispatched (bs : List UInt8) : Option Call :=
  let head := MsgHead.ofBytes (bs.take messageHeadLen)
  if messageHeadLen ≤ bs.length ∧ head.msglen.toInt = bs.length - messageHeadLen then
    some ⟨head.msgid, head.msglen, bs.drop messageHeadLen⟩
  else none

variable {s : UdpSocket} {bs data : List UInt8}

/-- The bytes of a datagram in `_read_buf`: head and rest. -/
theorem readBuf_parts (m : ℤ → UInt8) (hhead : messageHeadLen ≤ bs.length) :
    Memory.slice (Memory.write m 0 bs) 0 messageHeadLen = bs.take messageHeadLen ∧
      Memory.slice (Memory.write m 0 bs) messageHeadLen (bs.length - messageHeadLen) =
        bs.drop messageHeadLen := by
  have htake : (bs.take messageHeadLen).length = messageHeadLen := List.length_take_of_le hhead
  have hdrop : (bs.drop messageHeadLen).length = bs.length - messageHeadLen := List.length_drop
  have hsame : Memory.slice (Memory.write m 0 bs) 0 (bs.take messageHeadLen ++ bs.drop messageHeadLen).length =
      bs.take messageHeadLen ++ bs.drop messageHeadLen := by
    rw [List.take_append_drop]
    exact Memory.slice_write_same m bs 0
  obtain ⟨hslice, hrest⟩ := Memory.slice_drop hsame
  rw [htake] at hslice hrest
  rw [hdrop, Int.zero_add] at hrest
  exact ⟨hslice, hrest⟩

/-- A head that is not all there is never believed, whatever bytes make it up. -/
theorem deal_short (hshort : bs.length < messageHeadLen) : (s.deal bs).calls = s.calls := by
  have hfit : bs.take udpBufSize = bs := List.take_of_length_le (by unfold udpBufSize messageHeadLen at *; omega)
  unfold deal
  rw [hfit]
  dsimp only
  generalize MsgHead.ofBytes _ = head
  rw [if_pos]
  by_cases hneg : head.msglen.toInt < 0
  · exact Or.inr (Or.inl hneg)
  · refine Or.inr (Or.inr ?_)
    omega

theorem deal_long (hhead : messageHeadLen ≤ bs.length) (hsize : bs.length ≤ udpBufSize) :
    (s.deal bs).calls = s.calls ++ (dispatched bs).toList := by
  obtain ⟨hslice, hdata⟩ := readBuf_parts s.readBuf hhead
  unfold deal dispatched
  rw [List.take_of_length_le hsize]
  dsimp only
  rw [hslice]
  generalize MsgHead.ofBytes (bs.take messageHeadLen) = head
  by_cases hlen : head.msglen.toInt = bs.length - messageHeadLen
  · have hn : head.msglen.toInt.toNat = bs.length - messageHeadLen := by omega
    have hin : ¬ (messageLengthLimit < head.msglen.toInt ∨ head.msglen.toInt < 0 ∨
        head.msglen.toInt + messageHeadLen ≠ bs.length) := by
      unfold messageLengthLimit udpBufSize messageHeadLen at *
      omega
    rw [if_neg hin, if_pos ⟨hhead, hlen⟩, hn, hdata]
    rfl
  · rw [if_pos (by omega), if_neg (fun h => hlen h.2)]
    exact (List.append_nil _).symm

/-- **One datagram**: the stale bytes of `_read_buf` do not matter. -/
theorem deal_calls (hsize : bs.length ≤ udpBufSize) :
    (s.deal bs).calls = s.calls ++ (dispatched bs).toList := by
  rcases Nat.lt_or_ge bs.length messageHeadLen with hshort | hhead
  · have hnone : dispatched bs = none := if_neg fun h => by omega
    rw [deal_short hshort, hnone]
    exact (List.append_nil _).symm
  · exact deal_long hhead hsize

/-- The datagrams that one `do_read` comes to: those in front of the first `EAGAIN` or error. -/
def reached {α : Type*} : List (Recv α) → List (List UInt8)
  | [] => []
  | .datagram _ bs :: rest => bs :: reached rest
  | .eintr :: rest => reached rest
  | .eagain :: _ => []
  | .error :: _ => []

/-- The loop deals with one datagram after the other. -/
theorem readLoop_calls {σ α : Type*} {turn : α → List UInt8 → σ → σ} (calls : σ → List Call)
    (hturn : ∀ src bs s, bs.length ≤ udpBufSize → calls (turn src bs s) = calls s ++ (dispatched bs).toList)
    (rs : List (Recv α)) (hsize : ∀ bs ∈ reached rs, bs.length ≤ udpBufSize) (s : σ) :
    calls (readLoop turn rs s).1 = calls s ++ (reached rs).filterMap dispatched := by
  induction rs generalizing s with
  | nil => exact (List.append_nil _).symm
  | cons r rs ih =>
    cases r with
    | datagram src bs =>
      have hbs : bs.length ≤ udpBufSize := hsize bs List.mem_cons_self
      have hrest := ih (fun b hb => hsize b (List.mem_cons_of_mem bs hb)) (turn src bs s)
      show calls (readLoop turn rs (turn src bs s)).1 = _
      rw [hrest, hturn src bs s hbs, List.append_assoc]
      show _ = calls s ++ (bs :: reached rs).filterMap dispatched
      rw [List.filterMap_cons]
      cases dispatched bs <;> rfl
    | eintr => exact ih hsize s
    | eagain => exact (List.append_nil _).symm
    | error => exact (List.append_nil _).symm

end UdpSocket

open UdpSocket

/-- **A datagram is dispatched if and only if it announces its own length**, and then with
its own bytes; all others are passed over. -/
theorem udp_dispatches {α : Type*} (rs : List (Recv α))
    (hsize : ∀ bs ∈ reached rs, bs.length ≤ udpBufSize) :
    (∀ s : UdpServer α, (s.doRead rs).1.calls = s.calls ++ (reached rs).filterMap dispatched) ∧
      ∀ s : UdpClient, (s.doRead rs).1.calls = s.calls ++ (reached rs).filterMap dispatched :=
  ⟨fun s => readLoop_calls (fun t : UdpServer α => t.calls) (fun _ _ _ => deal_calls) rs hsize s,
    fun s => readLoop_calls (fun t : UdpClient => t.calls) (fun _ _ _ => deal_calls) rs hsize s⟩

/-- A short datagram behind a good one, whose head would still fit, and a good one behind it. -/
theorem udp_dispatches_three :
    let good : List UInt8 := [1, 0, 0, 0, 1, 0, 0, 0, 42]
    let rs : List (Recv ℕ) := [.datagram 0 good, .eintr, .datagram 1 [2], .datagram 2 good, .eagain]
    (∀ s : UdpServer ℕ, (s.doRead rs).1.calls = s.calls ++ [⟨1, 1, [42]⟩, ⟨1, 1, [42]⟩]) ∧
      ∀ s : UdpClient, (s.doRead rs).1.calls = s.calls ++ [⟨1, 1, [42]⟩, ⟨1, 1, [42]⟩] := by
  refine udp_dispatches _ ?_
  simp [reached, udpBufSize]

/-- `send_message` takes the body: no result of -1 for its length. -/
def UdpSocket.Accepts (data : List UInt8) : Prop := ¬ messageLengthLimit < (data.length : ℤ)

/-- The frame of an accepted body that fits behind its head. -/
theorem UdpSocket.sendMessage_room {s : UdpSocket} {msgid : Int32} {data : List UInt8} (sendto : Bool)
    (hfit : data.length ≤ 65519) : ∃ s', s.sendMessage sendto msgid data =
      if sendto then
        .ok (data.length + messageHeadLen, some ((MsgHead.ofMessage ⟨msgid, data⟩).toBytes ++ data), s')
      else .ok (-1, none, s') := by
  have haccept : ¬ messageLengthLimit < (data.length : ℤ) := by unfold messageLengthLimit; omega
  have hroom : ¬ udpBufSize < messageHeadLen + data.length := by
    unfold udpBufSize messageHeadLen
    omega
  have hframe : ∀ head : List UInt8, head.length = messageHeadLen →
      Memory.slice (Memory.write (Memory.write s.writeBuf 0 head) messageHeadLen data) 0
        (data.length + messageHeadLen) = head ++ data := by
    intro head hhead
    rw [Nat.add_comm, Memory.slice_add, Int.zero_add, Memory.slice_write_same,
      Memory.slice_write_outside _ _ _ _ _ (Or.inl (by omega)), ← hhead, Memory.slice_write_same]
  unfold sendMessage
  rw [if_neg haccept, if_neg hroom]
  dsimp only
  rw [hframe _ (MsgHead.length_toBytes _)]
  exact ⟨_, rfl⟩

theorem UdpSocket.sendMessage_fits {s : UdpSocket} {msgid : Int32} {data : List UInt8}
    (hfit : data.length ≤ 65519) : ∃ s', s.sendMessage true msgid data =
      .ok (data.length + messageHeadLen, some ((MsgHead.ofMessage ⟨msgid, data⟩).toBytes ++ data), s') :=
  sendMessage_room true hfit

/-- Behind the limit of the buffer the second `memcpy` leaves `_write_buf`. -/
theorem UdpSocket.sendMessage_overrun {s : UdpSocket} {sendto : Bool} {msgid : Int32} {data : List UInt8}
    (haccept : Accepts data) (hlong : 65519 < data.length) :
    s.sendMessage sendto msgid data = .error .outOfBounds := by
  have hroom : udpBufSize < messageHeadLen + data.length := by unfold udpBufSize messageHeadLen; omega
  unfold sendMessage
  rw [if_neg haccept, if_pos hroom]

/-- The receiver dispatches what the sender put into a frame. -/
theorem UdpSocket.dispatched_frame {msgid : Int32} {data : List UInt8} (hfit : data.length ≤ 65519) :
    dispatched ((MsgHead.ofMessage ⟨msgid, data⟩).toBytes ++ data) = some (Message.call ⟨msgid, data⟩) := by
  have hlen : (Int32.ofNat data.length).toInt = data.length := Int32.toInt_ofNat_of_lt (by omega)
  have hhead := MsgHead.length_toBytes (MsgHead.ofMessage ⟨msgid, data⟩)
  unfold dispatched
  rw [← hhead, List.take_left, List.drop_left, MsgHead.ofBytes_toBytes, List.length_append]
  refine if_pos ⟨Nat.le_add_right _ _, ?_⟩
  show (Int32.ofNat data.length).toInt = _
  omega

/-- **What a message is to come to** that a server sends: a frame that fits both buffers,
and makes the client dispatch this message. -/
def UdpServer.Delivers {α : Type*} (m : Message) (s : UdpServer α) (r : UdpClient) : Prop :=
  ∃ frame s', s.sendMessage true m.msgid m.data =
      .ok (m.data.length + messageHeadLen, some (s.clientAddr, frame), s') ∧
    frame.length ≤ udpBufSize ∧ (r.doRead [Recv.datagram () frame]).1.calls = r.calls ++ [m.call]

/-- The same for a message that a client sends from its address `src`. -/
def UdpClient.Delivers {α : Type*} (m : Message) (s : UdpClient) (src : α) (r : UdpServer α) : Prop :=
  ∃ frame s', s.sendMessage true m.msgid m.data =
      .ok (m.data.length + messageHeadLen, some frame, s') ∧
    frame.length ≤ udpBufSize ∧ (r.doRead [Recv.datagram src frame]).1.calls = r.calls ++ [m.call]

section Delivery

variable {α : Type*} {m : Message}

/-- The frame of a message that fits: its length, and what a receiver makes of it. -/
theorem frame_of_fits (hfit : m.data.length ≤ 65519) :
    ∃ frame, (∀ s : UdpSocket, ∃ s', s.sendMessage true m.msgid m.data =
        .ok (m.data.length + messageHeadLen, some frame, s')) ∧
      frame.length ≤ udpBufSize ∧ ∀ s : UdpSocket, (s.deal frame).calls = s.calls ++ [m.call] := by
  have hlen : ((MsgHead.ofMessage m).toBytes ++ m.data).length ≤ udpBufSize := by
    rw [List.length_append, MsgHead.length_toBytes]
    unfold udpBufSize messageHeadLen
    omega
  refine ⟨_, fun s => UdpSocket.sendMessage_fits hfit, hlen, fun s => ?_⟩
  rw [deal_calls hlen, UdpSocket.dispatched_frame hfit]
  rfl

theorem UdpServer.arrives (hfit : m.data.length ≤ 65519) (s : UdpServer α) (r : UdpClient) :
    s.Delivers m r := by
  obtain ⟨frame, hsend, hlen, hcalls⟩ := frame_of_fits hfit
  obtain ⟨s', hs'⟩ := hsend s.toUdpSocket
  refine ⟨frame, { s with toUdpSocket := s' }, ?_, hlen, hcalls r.toUdpSocket⟩
  unfold UdpServer.sendMessage
  rw [hs']
  rfl

theorem UdpClient.arrives (hfit : m.data.length ≤ 65519) (s : UdpClient) (src : α) (r : UdpServer α) :
    s.Delivers m src r := by
  obtain ⟨frame, hsend, hlen, hcalls⟩ := frame_of_fits hfit
  obtain ⟨s', hs'⟩ := hsend s.toUdpSocket
  refine ⟨frame, ⟨s'⟩, ?_, hlen, hcalls r.toUdpSocket⟩
  unfold UdpClient.sendMessage
  rw [hs']

theorem UdpServer.sendMessage_overrun {s : UdpServer α} (haccept : UdpSocket.Accepts m.data)
    (hlong : 65519 < m.data.length) : s.sendMessage true m.msgid m.data = .error .outOfBounds := by
  unfold UdpServer.sendMessage
  rw [UdpSocket.sendMessage_overrun haccept hlong]

theorem UdpClient.sendMessage_overrun {s : UdpClient} (haccept : UdpSocket.Accepts m.data)
    (hlong : 65519 < m.data.length) : s.sendMessage true m.msgid m.data = .error .outOfBounds := by
  unfold UdpClient.sendMessage
  rw [UdpSocket.sendMessage_overrun haccept hlong]

/-- **An accepted message arrives exactly if its head fits into `_write_buf` as well.** -/
theorem udp_delivers_iff (m : Message) :
    (∀ (s : UdpServer α) (r : UdpClient), (UdpSocket.Accepts m.data → s.Delivers m r) ↔
        ¬ (65519 < m.data.length ∧ m.data.length ≤ 65527)) ∧
      ∀ (s : UdpClient) (src : α) (r : UdpServer α), (UdpSocket.Accepts m.data → s.Delivers m src r) ↔
        ¬ (65519 < m.data.length ∧ m.data.length ≤ 65527) := by
  have hlimit : UdpSocket.Accepts m.data ↔ m.data.length ≤ 65527 := by
    unfold UdpSocket.Accepts messageLengthLimit
    omega
  refine ⟨fun s r => ⟨fun h => ?_, fun hlen haccept => ?_⟩,
    fun s src r => ⟨fun h => ?_, fun hlen haccept => ?_⟩⟩
  · rintro ⟨hlong, hle⟩
    obtain ⟨frame, s', hs', -⟩ := h (hlimit.2 hle)
    rw [UdpServer.sendMessage_overrun (hlimit.2 hle) hlong] at hs'
    cases hs'
  · have hle := hlimit.1 haccept
    exact UdpServer.arrives (by omega) s r
  · rintro ⟨hlong, hle⟩
    obtain ⟨frame, s', hs', -⟩ := h (hlimit.2 hle)
    rw [UdpClient.sendMessage_overrun (hlimit.2 hle) hlong] at hs'
    cases hs'
  · have hle := hlimit.1 haccept
    exact UdpClient.arrives (by omega) s src r

end Delivery

/-- One byte too much, by a server that has sent nothing so far. -/
theorem udp_delivers_not_65520 :
    let m : Message := ⟨1, List.replicate 65520 0⟩
    let s : UdpServer ℕ := ⟨⟨fun _ => 0, fun _ => 0, []⟩, 0⟩
    UdpSocket.Accepts m.data ∧ s.sendMessage true m.msgid m.data = .error .outOfBounds ∧
      ¬ s.Delivers m ⟨⟨fun _ => 0, fun _ => 0, []⟩⟩ := by
  intro m s
  have hlen : m.data.length = 65520 := List.length_replicate
  have haccept : UdpSocket.Accepts m.data := by
    unfold UdpSocket.Accepts messageLengthLimit
    omega
  have hover : s.sendMessage true m.msgid m.data = .error .outOfBounds :=
    UdpServer.sendMessage_overrun haccept (by omega)
  refine ⟨haccept, hover, ?_⟩
  rintro ⟨frame, s', hs', -⟩
  rw [hover] at hs'
  cases hs'

end LbRpc
