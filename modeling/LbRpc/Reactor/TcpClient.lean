import LbRpc.Reactor.IOBuf

/-!
# The TCP client on one connection

`TCPClient` (`reactor/include/tcp_client.h`, `reactor/src/tcp_client.cpp`), from the moment
it is connected until the connection is given up; making the next connection is not
part of this module. Both buffers are members of 4 MB, they never go to the pool.

The decode loop runs on fuel and ends in the crash `diverged` when it runs out.
-/

namespace LbRpc

structure TcpClient where
  connected : Bool
  obuf : IOBuf
  ibuf : IOBuf
  /-- the calls of `_router.call` so far -/
  calls : List Call

namespace TcpClient

/-- The size of both buffers. -/
def bufSize : ℤ := 4194304

/-- A client whose connection was just made; its buffers hold what was in memory. -/
def new (junkOut junkIn : ℤ → UInt8) : TcpClient :=
  ⟨true, IOBuf.new bufSize junkOut, IOBuf.new bufSize junkIn, []⟩

/-- `TCPClient::send_message`: its return value, and whether it asks for `EPOLLOUT`. -/
def sendMessage (m : Message) (c : TcpClient) : Except Crash (ℤ × Bool × TcpClient) :=
  if c.connected = false then .ok (-1, false, c)
  else
    let need_add_event := decide (c.obuf.length = 0)
    if c.obuf.capacity - c.obuf.length < m.data.length + messageHeadLen then .ok (-1, false, c)
    else
      match c.obuf.append (MsgHead.ofMessage m).toBytes with
      | .error f => .error f
      | .ok obuf =>
        match obuf.append m.data with
        | .error f => .error f
        | .ok obuf => .ok (0, need_add_event, { c with obuf := obuf })

/-- The write loop of `TCPClient::do_write`: what the kernel takes. The list says how
much room it has at each `write`, none of it for `EAGAIN`; it has none behind the
list's end. Other errors end the connection and are not part of the model. -/
def writeLoop : List ℕ → IOBuf → Except Crash (List UInt8 × IOBuf)
  | [], obuf => .ok ([], obuf)
  | room :: rooms, obuf =>
    if obuf.length = 0 then .ok ([], obuf)
    else
      match obuf.peek (min room obuf.length.toNat) with
      | .error f => .error f
      | .ok taken =>
        if taken = [] then .ok ([], obuf)
        else
          match (obuf.pop taken.length).adjust with
          | .error f => .error f
          | .ok obuf =>
            match writeLoop rooms obuf with
            | .error f => .error f
            | .ok (more, obuf) => .ok (taken ++ more, obuf)

/-- `TCPClient::do_write`: the bytes written, and whether it gives `EPOLLOUT` up. -/
def doWrite (rooms : List ℕ) (c : TcpClient) : Except Crash (List UInt8 × Bool × TcpClient) :=
  if c.obuf.head = 0 ∧ c.obuf.length ≠ 0 then
    match writeLoop rooms c.obuf with
    | .error f => .error f
    | .ok (written, obuf) => .ok (written, decide (obuf.length = 0), { c with obuf := obuf })
  else .error .assertFail

/-- The decode loop of `TCPClient::do_read`. It does not look whether the body is there. -/
def decode : ℕ → TcpClient → Except Crash TcpClient
  | 0, _ => .error .diverged
  | fuel + 1, c =>
    if c.ibuf.length < messageHeadLen then .ok c
    else
      match c.ibuf.peek messageHeadLen with
      | .error f => .error f
      | .ok bs =>
        let head := MsgHead.ofBytes bs
        -- no check of `msglen` stands here, neither of its range nor of what has come
        let ibuf := c.ibuf.pop messageHeadLen
        let call : Call :=
          ⟨head.msgid, head.msglen, Memory.slice ibuf.data ibuf.head head.msglen.toInt.toNat⟩
        decode fuel { c with ibuf := ibuf.pop head.msglen.toInt, calls := c.calls ++ [call] }

/-- `TCPClient::clean_conn` up to its `do_connect`. -/
def cleanConn (c : TcpClient) : TcpClient := { c with connected := false }

/-- `TCPClient::do_read`. `fionread` is what `ioctl` finds, `got` what `read` brings;
`none` stands for `-1`. -/
def doRead (fuel : ℕ) (fionread : Option ℤ) (got : Option (List UInt8)) (c : TcpClient) :
    Except Crash TcpClient :=
  if c.connected = false then .error .assertFail
  else
    match fionread with
    | none => .ok c
    | some need_read =>
      if c.ibuf.capacity - c.ibuf.length < need_read then .error .assertFail
      else
        match got with
        | none => .ok c.cleanConn
        | some bs =>
          if bs = [] then .ok c.cleanConn
          else if bs.length ≠ need_read then .error .assertFail
          else
            match c.ibuf.append bs with
            | .error f => .error f
            | .ok ibuf =>
              match decode fuel { c with ibuf := ibuf } with
              | .error f => .error f
              | .ok c =>
                match c.ibuf.adjust with
                | .error f => .error f
                | .ok ibuf => .ok { c with ibuf := ibuf }

end TcpClient

end LbRpc
