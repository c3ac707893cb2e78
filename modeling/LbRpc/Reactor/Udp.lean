import LbRpc.Base.Memory
import LbRpc.Reactor.Message

/-!
# Messages in datagrams

`UDPServer` (`reactor/src/udp_server.cpp`) and `UDPClient` (`reactor/src/udp_client.cpp`),
which share all of `do_read` and `send_message` but the peer's address. A datagram holds
one message, with the head of the TCP messages in front.

* `UdpSocket.deal`: what the loop of `do_read` does with one datagram.
* `UdpSocket.sendMessage`: the two `memcpy` of `send_message`, and its `sendto`.
-/

namespace LbRpc

/-- `sizeof(_read_buf)` and `sizeof(_write_buf)`: both are `char[MESSAGE_LENGTH_LIMIT]`. -/
def udpBufSize : ℕ := 65535 - 8

/-- What one call of `recvfrom` brings, by the sender's address. -/
inductive Recv (α : Type*)
  | datagram (src : α) (bs : List UInt8)
  | eintr
  | eagain
  | error

/-- What `UDPServer` and `UDPClient` have in common, and the calls of `_router` so far. -/
structure UdpSocket where
  /-- `_read_buf` -/
  readBuf : ℤ → UInt8
  /-- `_write_buf` -/
  writeBuf : ℤ → UInt8
  calls : List Call

namespace UdpSocket

/-- One turn of the loop of `do_read`: `recvfrom` cuts a datagram off at the end of
`_read_buf`, and leaves the bytes behind a short one. -/
def deal (bs : List UInt8) (s : UdpSocket) : UdpSocket :=
  let got := bs.take udpBufSize
  let pkgLen : ℤ := got.length
  let readBuf := Memory.write s.readBuf 0 got
  let head := MsgHead.ofBytes (Memory.slice readBuf 0 messageHeadLen)
  if messageLengthLimit < head.msglen.toInt ∨ head.msglen.toInt < 0 ∨
      head.msglen.toInt + messageHeadLen ≠ pkgLen then
    { s with readBuf := readBuf }
  else
    let data := Memory.slice readBuf messageHeadLen head.msglen.toInt.toNat
    { s with readBuf := readBuf, calls := s.calls ++ [⟨head.msgid, head.msglen, data⟩] }

/-- The loop of `do_read`, by what `recvfrom` brings; `EAGAIN` when nothing is left. -/
def readLoop {σ α : Type*} (turn : α → List UInt8 → σ → σ) : List (Recv α) → σ → σ × List (Recv α)
  | [], s => (s, [])
  | .datagram src bs :: rest, s => readLoop turn rest (turn src bs s)
  | .eintr :: rest, s => readLoop turn rest s
  | .eagain :: rest, s => (s, rest)
  | .error :: rest, s => (s, rest)

/-- `send_message`: its result, the datagram that leaves, and the socket. `sendto` may fail. -/
def sendMessage (sendto : Bool) (msgid : Int32) (data : List UInt8) (s : UdpSocket) :
    Except Crash (ℤ × Option (List UInt8) × UdpSocket) :=
  let msglen : ℤ := data.length
  if messageLengthLimit < msglen then .ok (-1, none, s)
  else
    let head := MsgHead.toBytes ⟨msgid, Int32.ofNat data.length⟩
    -- the second `memcpy` fills `_write_buf` from behind the head on
    if udpBufSize < messageHeadLen + data.length then .error .outOfBounds
    else
      let writeBuf := Memory.write (Memory.write s.writeBuf 0 head) messageHeadLen data
      let frame := Memory.slice writeBuf 0 (data.length + messageHeadLen)
      let s := { s with writeBuf := writeBuf }
      if sendto then .ok (msglen + messageHeadLen, some frame, s) else .ok (-1, none, s)

end UdpSocket

/-- `UDPServer`, which answers the last sender. -/
structure UdpServer (α : Type*) extends UdpSocket where
  /-- `_client_addr` -/
  clientAddr : α

namespace UdpServer

variable {α : Type*}

/-- `UDPServer::do_read`, with what is left for the next one. -/
def doRead (rs : List (Recv α)) (s : UdpServer α) : UdpServer α × List (Recv α) :=
  UdpSocket.readLoop (fun src bs s => { s with toUdpSocket := s.deal bs, clientAddr := src }) rs s

/-- `UDPServer::send_message`; the datagram goes to `_client_addr`. -/
def sendMessage (sendto : Bool) (msgid : Int32) (data : List UInt8) (s : UdpServer α) :
    Except Crash (ℤ × Option (α × List UInt8) × UdpServer α) :=
  match s.toUdpSocket.sendMessage sendto msgid data with
  | .error f => .error f
  | .ok (ret, frame, socket) =>
    .ok (ret, frame.map fun bs => (s.clientAddr, bs), { s with toUdpSocket := socket })

end UdpServer

/-- `UDPClient`, which is connected to its one peer. -/
structure UdpClient extends UdpSocket

namespace UdpClient

variable {α : Type*}

/-- `UDPClient::do_read`, with what is left for the next one. -/
def doRead (rs : List (Recv α)) (s : UdpClient) : UdpClient × List (Recv α) :=
  UdpSocket.readLoop (fun _ bs s => ⟨s.deal bs⟩) rs s

/-- `UDPClient::send_message`. -/
def sendMessage (sendto : Bool) (msgid : Int32) (data : List UInt8) (s : UdpClient) :
    Except Crash (ℤ × Option (List UInt8) × UdpClient) :=
  match s.toUdpSocket.sendMessage sendto msgid data with
  | .error f => .error f
  | .ok (ret, frame, socket) => .ok (ret, frame, ⟨socket⟩)

end UdpClient

end LbRpc
