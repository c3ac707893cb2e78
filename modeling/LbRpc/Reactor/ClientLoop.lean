import LbRpc.Reactor.EventLoop
import LbRpc.Reactor.TcpClient

/-!
# The TCP client over its connections

`TCPClient` (`reactor/src/tcp_client.cpp`) with its event loop, from its constructor on: it
connects, hears from `connection_delay` how that went, gives a connection up in
`clean_conn` and makes the next one. `TcpClient` is its part that belongs to one connection.

A step is one callback of the loop, one `send_message` between two callbacks, or one `write`
in the loop of `do_write`. Descriptors of others in the same loop are left out: no
function here touches their entries.

* `ClientLoop.construct`: the constructor, in memory that held anything.
* `ClientLoop.step`: the next callback, `write` or `send_message`.
* `ClientLoop.conns`: what was written and read on each connection.
-/

namespace LbRpc

/-- The callbacks that a `TCPClient` registers. -/
inductive ClientCallback
  | readCallback
  | writeCallback
  | connectionDelay
  deriving DecidableEq, Repr

/-- Ways in which a step has no next state. -/
inductive Ending
  | crash (f : Crash)
  /-- `exit(1)` -/
  | exit
  deriving DecidableEq, Repr

/-- What `connect` returns: 0, `EINPROGRESS` or another error. -/
inductive ConnectResult
  | connected
  | inProgress
  | failed
  deriving DecidableEq, Repr

/-- What `clean_conn` and `do_connect` meet. -/
structure Dial where
  /-- what `_conn_close_cb` sends -/
  closing : List Message
  /-- what `socket` returns -/
  socket : Fd
  connect : ConnectResult
  /-- what `_conn_start_cb` sends -/
  starting : List Message

/-- What one `write` returns; no room stands for `EAGAIN` or 0. -/
inductive WriteResult
  | wrote (room : ℕ)
  | failed (dial : Dial)

/-- What a callback meets. -/
structure Meets where
  /-- `FIONREAD`; `none` stands for -1 -/
  fionread : Option ℤ
  /-- `read`; `none` stands for -1 -/
  got : Option (List UInt8)
  /-- what the handlers of the router send -/
  replies : List Message
  /-- `SO_ERROR` -/
  soError : ℤ
  dial : Dial

/-- What went on on one connection. -/
structure ConnLog where
  written : List UInt8
  /-- what each `read` brought -/
  reads : List (List UInt8)
  /-- the calls of `_router.call` -/
  calls : List Call

structure ClientLoop where
  /-- `connected`, the buffers, and the calls on this connection -/
  client : TcpClient
  /-- `_sockfd` -/
  sockfd : Fd
  /-- `_loop` -/
  loop : EventLoop ClientCallback
  /-- `do_write` stands in front of `write` -/
  writing : Bool
  /-- the messages for which `send_message` returned 0 -/
  accepted : List Message
  /-- the connections that were given up -/
  past : List ConnLog
  /-- written on this connection -/
  written : List UInt8
  /-- what each `read` on this connection brought -/
  reads : List (List UInt8)

namespace ClientLoop

/-- All connections, the current one last. -/
def conns (s : ClientLoop) : List ConnLog := s.past ++ [⟨s.written, s.reads, s.client.calls⟩]

/-- `TCPClient::send_message`. -/
def sendMessage (m : Message) (s : ClientLoop) : Except Ending ClientLoop :=
  match s.client.sendMessage m with
  | .error f => .error (.crash f)
  | .ok (ret, need_add_event, client) =>
    .ok { s with
      client := client
      accepted := if ret = 0 then s.accepted ++ [m] else s.accepted
      loop := if need_add_event then s.loop.addIoEvent s.sockfd .writeCallback .out else s.loop }

/-- Calls of `send_message` by a hook or a handler. -/
def sendAll : List Message → ClientLoop → Except Ending ClientLoop
  | [], s => .ok s
  | m :: ms, s =>
    match s.sendMessage m with
    | .error f => .error f
    | .ok s => s.sendAll ms

/-- The statements that `do_connect` and `connection_delay` have in common: a connection is made. -/
def established (starting : List Message) (s : ClientLoop) : Except Ending ClientLoop :=
  match ({ s with client := { s.client with connected := true } } : ClientLoop).sendAll starting with
  | .error f => .error f
  | .ok s =>
    let loop := s.loop.addIoEvent s.sockfd .readCallback .inp
    .ok { s with
      loop := if s.client.obuf.length ≠ 0 then loop.addIoEvent s.sockfd .writeCallback .out else loop }

/-- `TCPClient::do_connect`. -/
def doConnect (socket : Fd) (result : ConnectResult) (starting : List Message) (s : ClientLoop) :
    Except Ending ClientLoop :=
  let loop := if s.sockfd ≠ -1 then s.loop.closed s.sockfd else s.loop
  let s := { s with loop := loop, sockfd := socket }
  if socket = -1 then .error .exit
  else
    match result with
    | .connected => s.established starting
    | .inProgress => .ok { s with loop := s.loop.addIoEvent socket .connectionDelay .out }
    | .failed => .error .exit

/-- `TCPClient::clean_conn`. It clears neither buffer. -/
def cleanConn (d : Dial) (s : ClientLoop) : Except Ending ClientLoop :=
  let s := { s with
    loop := if s.sockfd ≠ -1 then (s.loop.delIoEvent s.sockfd).closed s.sockfd else s.loop
    client := { s.client.cleanConn with calls := [] }
    past := s.conns
    written := []
    reads := [] }
  match s.sendAll d.closing with
  | .error f => .error f
  | .ok s => s.doConnect d.socket d.connect d.starting

/-- The constructor, which does not set `connected`. No hook is registered yet. -/
def construct (connected : Bool) (junkOut junkIn : ℤ → UInt8) (socket : Fd) (result : ConnectResult) :
    Except Ending ClientLoop :=
  doConnect socket result []
    { client :=
        ⟨connected, IOBuf.new TcpClient.bufSize junkOut, IOBuf.new TcpClient.bufSize junkIn, []⟩
      sockfd := -1
      loop := .new
      writing := false
      accepted := []
      past := []
      written := []
      reads := [] }

/-- `connection_delay`. It does nothing about a connection that failed. -/
def connectionDelay (soError : ℤ) (starting : List Message) (s : ClientLoop) : Except Ending ClientLoop :=
  let s := { s with loop := s.loop.delIoEvent s.sockfd }
  if soError = 0 then s.established starting else .ok s

/-- `TCPClient::do_read`. What the handlers send goes to the output side alone, and stands
here behind the decode loop. -/
def doRead (fuel : ℕ) (o : Meets) (s : ClientLoop) : Except Ending ClientLoop :=
  match s.client.doRead fuel o.fionread o.got with
  | .error f => .error (.crash f)
  | .ok client =>
    let s := { s with client := client }
    if client.connected = false then s.cleanConn o.dial
    else
      match o.fionread, o.got with
      | some _, some bs => { s with reads := s.reads ++ [bs] }.sendAll o.replies
      | _, _ => .ok s

/-- What `do_write` does behind its loop. -/
def endWrite (s : ClientLoop) : ClientLoop :=
  { s with
    writing := false
    loop := if s.client.obuf.length = 0 then s.loop.delIoEventMask s.sockfd .out else s.loop }

/-- The condition of the `while` loop. -/
def whileWrite (s : ClientLoop) : ClientLoop := if s.client.obuf.length = 0 then s.endWrite else s

/-- `TCPClient::do_write` up to its first `write`. -/
def doWrite (s : ClientLoop) : Except Ending ClientLoop :=
  if s.client.obuf.head = 0 ∧ s.client.obuf.length ≠ 0 then .ok { s with writing := true }
  else .error (.crash .assertFail)

/-- The body of the `while` loop. It goes on with the next socket after an error. -/
def write (o : WriteResult) (s : ClientLoop) : Except Ending ClientLoop :=
  match o with
  | .wrote room =>
    match s.client.obuf.peek (min room s.client.obuf.length.toNat) with
    | .error f => .error (.crash f)
    | .ok taken =>
      if taken = [] then .ok s.endWrite
      else
        match (s.client.obuf.pop taken.length).adjust with
        | .error f => .error (.crash f)
        | .ok obuf =>
          .ok ({ s with
            client := { s.client with obuf := obuf }
            written := s.written ++ taken } : ClientLoop).whileWrite
  | .failed d =>
    match s.cleanConn d with
    | .error f => .error f
    | .ok s => .ok s.whileWrite

/-- One thing that happens. -/
inductive Event
  /-- `send_message` between two callbacks -/
  | send (m : Message)
  /-- the loop comes to an event of the socket -/
  | fired (f : Fired) (o : Meets)
  /-- the next `write` of `do_write` -/
  | write (o : WriteResult)

/-- The callback for an event that the kernel reports. -/
def fire (fuel : ℕ) (f : Fired) (o : Meets) (s : ClientLoop) : Except Ending ClientLoop :=
  match s.loop.callback s.sockfd f with
  | .error c => .error (.crash c)
  | .ok none => .ok { s with loop := s.loop.delIoEvent s.sockfd }
  | .ok (some .readCallback) => s.doRead fuel o
  | .ok (some .writeCallback) => s.doWrite
  | .ok (some .connectionDelay) => s.connectionDelay o.soError o.dial.starting

/-- An event that cannot occur changes nothing. -/
def step (fuel : ℕ) (s : ClientLoop) : Event → Except Ending ClientLoop
  | .send m => if s.writing then .ok s else s.sendMessage m
  | .fired f o => if s.writing = false ∧ s.loop.fires s.sockfd f then s.fire fuel f o else .ok s
  | .write o => if s.writing then s.write o else .ok s

end ClientLoop

end LbRpc
