import LbRpc.Reactor.ReactorBuf

/-!
# A connection of the TCP server

`TCPConn` (`reactor/include/tcp_conn.h`, `reactor/src/tcp_conn.cpp`). The calls made to
`TCPServer::router` are recorded; a callback does not touch the input buffer. What the
event loop is told about `EPOLLOUT` is part of the results.

The decode loop runs on fuel and ends in the crash `diverged` when it runs out.
-/

namespace LbRpc

structure TcpConn where
  ibuf : ReactorBuf
  obuf : ReactorBuf
  /-- `clean_conn` has closed the socket -/
  closed : Bool
  /-- the calls of `TCPServer::router.call` so far -/
  calls : List Call

namespace TcpConn

/-- A connection that was just accepted. -/
def new : TcpConn := ⟨.empty, .empty, false, []⟩

/-- `TCPConn::clean_conn`. -/
def cleanConn (c : TcpConn) (p : BufPool) : Except Crash (TcpConn × BufPool) :=
  match c.ibuf.clear p with
  | .error f => .error f
  | .ok (ibuf, p) =>
    match c.obuf.clear p with
    | .error f => .error f
    | .ok (obuf, p) => .ok ({ c with ibuf := ibuf, obuf := obuf, closed := true }, p)

/-- The decode loop of `TCPConn::do_read`. -/
def decode : ℕ → TcpConn → BufPool → Except Crash (TcpConn × BufPool)
  | 0, _, _ => .error .diverged
  | fuel + 1, c, p =>
    if c.ibuf.length < messageHeadLen then .ok (c, p)
    else
      match c.ibuf.peek messageHeadLen with
      | .error f => .error f
      | .ok bs =>
        let head := MsgHead.ofBytes bs
        if messageLengthLimit < head.msglen.toInt ∨ head.msglen.toInt < 0 then c.cleanConn p
        else if c.ibuf.length < messageHeadLen + head.msglen.toInt then .ok (c, p)
        else
          match c.ibuf.pop messageHeadLen p with
          | .error f => .error f
          | .ok (ibuf, p) =>
            let call : Call := ⟨head.msgid, head.msglen, ibuf.behind head.msglen.toInt.toNat⟩
            -- the `pop` of the head may have given the buffer back already
            match ibuf.pop head.msglen.toInt p with
            | .error f => .error f
            | .ok (ibuf, p) => decode fuel { c with ibuf := ibuf, calls := c.calls ++ [call] } p

/-- `TCPConn::do_read`. A round of the loop takes at least a head, so the fuel is enough
for every input. -/
def doRead (fionread : Option ℤ) (got : Option (List UInt8)) (junk : ℤ → UInt8) (c : TcpConn)
    (p : BufPool) : Except Crash (TcpConn × BufPool) :=
  match c.ibuf.readData fionread got junk p with
  | .error f => .error f
  | .ok (ret, ibuf, p) =>
    if ret = -1 ∨ ret = 0 then cleanConn { c with ibuf := ibuf } p
    else
      match decode (ibuf.length.toNat + 1) { c with ibuf := ibuf } p with
      | .error f => .error f
      | .ok (c, p) =>
        match c.ibuf.adjust with
        | .error f => .error f
        | .ok ibuf => .ok ({ c with ibuf := ibuf }, p)

/-- `TCPConn::send_message`: its return value, and whether it asks for `EPOLLOUT`. -/
def sendMessage (m : Message) (junk : ℤ → UInt8) (c : TcpConn) (p : BufPool) :
    Except Crash (ℤ × Bool × TcpConn × BufPool) :=
  let active_epollout := decide (c.obuf.length = 0)
  match c.obuf.sendData (MsgHead.ofMessage m).toBytes junk p with
  | .error f => .error f
  | .ok (ret, obuf, p) =>
    if ret ≠ 0 then .ok (-1, false, { c with obuf := obuf }, p)
    else
      match obuf.sendData m.data junk p with
      | .error f => .error f
      | .ok (ret, obuf, p) =>
        if ret ≠ 0 then
          -- the roll-back takes the head's length off the front
          match obuf.pop messageHeadLen p with
          | .error f => .error f
          | .ok (obuf, p) => .ok (-1, false, { c with obuf := obuf }, p)
        else .ok (0, active_epollout, { c with obuf := obuf }, p)

/-- How the write loop of `TCPConn::do_write` ends. -/
inductive WriteEnd
  | failed
  | done
  deriving DecidableEq, Repr

/-- The write loop of `TCPConn::do_write`: what the kernel takes. The list says how much
room it has at each `write`; it has none behind the list's end. -/
def writeLoop : List (Option ℕ) → ReactorBuf → Except Crash (WriteEnd × List UInt8 × ReactorBuf)
  | [], obuf => .ok (.done, [], obuf)
  | room :: rooms, obuf =>
    if obuf.length = 0 then .ok (.done, [], obuf)
    else
      match obuf.write2fd room with
      | .error f => .error f
      | .ok (ret, taken, obuf) =>
        if ret = -1 then .ok (.failed, [], obuf)
        else if ret = 0 then .ok (.done, [], obuf)
        else
          match writeLoop rooms obuf with
          | .error f => .error f
          | .ok (e, more, obuf) => .ok (e, taken ++ more, obuf)

/-- `TCPConn::do_write`: the bytes written, and whether it gives `EPOLLOUT` up. -/
def doWrite (rooms : List (Option ℕ)) (c : TcpConn) (p : BufPool) :
    Except Crash (List UInt8 × Bool × TcpConn × BufPool) :=
  match writeLoop rooms c.obuf with
  | .error f => .error f
  | .ok (.failed, written, obuf) =>
    match cleanConn { c with obuf := obuf } p with
    | .error f => .error f
    | .ok (c, p) => .ok (written, false, c, p)
  | .ok (.done, written, obuf) =>
    .ok (written, decide (obuf.length = 0), { c with obuf := obuf }, p)

end TcpConn

end LbRpc
