import LbRpc.Base.Runs
import LbRpc.Reactor.EpollCtl
import LbRpc.Reactor.TcpConn

/-!
# A connection of the TCP server on its loop

`TCPConn` (`reactor/src/tcp_conn.cpp`) with the event loop that it registers itself at,
from its constructor to its `clean_conn`. The loop has other descriptors too.

A step is one callback, one `send_message`, or one operation on another descriptor. The
messages that the handlers of the router send, and those of the connection-start hook, are
steps of their own: `do_read` touches neither the output buffer nor the loop unless it
ends in `clean_conn`. A buffer pool serves all connections, so each step meets one.

* `ConnLoop.construct`: the connection at the start of its constructor.
* `ConnLoop.step`: the next step. Behind `clean_conn` there is none.
-/

namespace LbRpc

/-- The descriptor that an operation is about. -/
def LoopOp.fd {κ : Type*} : LoopOp κ → Fd
  | add fd _ _ _ => fd
  | del fd => fd
  | delMask fd _ => fd

/-- A connection, and the loop that it is on; `κ` are the callbacks of the loop. -/
structure ConnLoop (κ : Type*) where
  /-- `_connfd`, until `clean_conn` -/
  connfd : Fd
  conn : TcpConn
  /-- `_loop` -/
  loop : EventLoop κ
  /-- the constructor is through with its `add_io_event` -/
  started : Bool

namespace ConnLoop

/-- What happens to a connection. -/
inductive Event (κ : Type*)
  /-- `send_message`, by whomever -/
  | send (m : Message) (junk : ℤ → UInt8) (p : BufPool)
  /-- the constructor behind its hook -/
  | start
  /-- `conn_rd_callback`, with the results of `ioctl` and `read` -/
  | read (fionread : Option ℤ) (got : Option (List UInt8)) (junk : ℤ → UInt8) (p : BufPool)
  /-- `conn_wt_callback`, with the room at each `write` -/
  | write (rooms : List (Option ℕ)) (p : BufPool)
  /-- an operation of another descriptor -/
  | other (op : LoopOp κ)

variable {κ : Type*}

/-- The connection before the first statement of its constructor that can send. -/
def construct (connfd : Fd) (loop : EventLoop κ) : ConnLoop κ := ⟨connfd, .new, loop, false⟩

/-- What `do_read` and `do_write` leave; `clean_conn` takes the descriptor out of the loop. -/
def settle (c : TcpConn) (loop : EventLoop κ) (s : ConnLoop κ) : ConnLoop κ :=
  if c.closed then { s with conn := c, loop := (loop.delIoEvent s.connfd).closed s.connfd }
  else { s with conn := c, loop := loop }

/-- What an event does to a live connection, for the callbacks `rd` (`conn_rd_callback`)
and `wt` (`conn_wt_callback`). -/
def act (rd wt : κ) (s : ConnLoop κ) : Event κ → Except Crash (ConnLoop κ)
  | .send m junk p =>
    match s.conn.sendMessage m junk p with
    | .error f => .error f
    | .ok (_, active_epollout, conn, _) =>
      .ok { s with
        conn := conn
        loop := if active_epollout then s.loop.addIoEvent s.connfd wt .out else s.loop }
  | .start =>
    if s.started then .ok s
    else .ok { s with loop := s.loop.addIoEvent s.connfd rd .inp, started := true }
  | .read fionread got junk p =>
    -- the loop calls nobody before the constructor is through
    if s.started then
      match s.conn.doRead fionread got junk p with
      | .error f => .error f
      | .ok (conn, _) => .ok (s.settle conn s.loop)
    else .ok s
  | .write rooms p =>
    if s.started then
      match s.conn.doWrite rooms p with
      | .error f => .error f
      | .ok (_, del, conn, _) =>
        .ok (s.settle conn (if del then s.loop.delIoEventMask s.connfd .out else s.loop))
    else .ok s
  | .other op => .ok (if op.fd = s.connfd then s else { s with loop := op.apply s.loop })

/-- One step; a connection that is closed stays as it is. -/
def step (rd wt : κ) (s : ConnLoop κ) (e : Event κ) : Except Crash (ConnLoop κ) :=
  if s.conn.closed then .ok s else s.act rd wt e

end ConnLoop

end LbRpc
