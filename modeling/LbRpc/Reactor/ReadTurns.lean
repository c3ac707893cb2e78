import LbRpc.Reactor.TcpConn

/-!
# Reading, one call at a time

`TCPConn::do_read` (`reactor/src/tcp_conn.cpp`) cut at its calls on the input buffer:
`read_data`, then the decode loop with a `pop` for each head and each body, then `adjust` or
`clear`. `TcpConn.doRead` goes through them in one go. The pool serves other buffers between
two calls, so each turn meets one.

* `ReadTurns.asks`: what `read_data` asks `read` for, and the room there is for it.
* `ReadTurns.step`: the next call.
-/

namespace LbRpc

/-- Where `do_read` stands. -/
inductive ReadPc
  /-- it is not running -/
  | idle
  /-- at the condition of the decode loop -/
  | loop
  /-- before the `pop` of a body of this length -/
  | body (msglen : ℤ)
  /-- `clean_conn` has run -/
  | closed
  deriving DecidableEq, Repr

structure ReadTurns where
  ibuf : ReactorBuf
  pc : ReadPc

namespace ReadTurns

/-- A connection that was just accepted. -/
def new : ReadTurns := ⟨.empty, .idle⟩

/-- The number of bytes that `read_data` asks `read` for. -/
def request (need_read : ℤ) : ℤ := if need_read = 0 then MemCap.m4K.size else need_read

/-- `read_data` up to its `read`: the number that it asks for, and the room behind the bytes
in the buffer. It gives up before it asks when the pool has no buffer. -/
def asks (need_read : ℤ) (junk : ℤ → UInt8) (ibuf : ReactorBuf) (p : BufPool) :
    Except Crash (Option (ℤ × ℤ)) :=
  if ibuf.sumOverflows need_read then .error .outOfBounds
  else
    match ibuf.reserve need_read junk p with
    | .error f => .error f
    | .ok (none, _) => .ok none
    | .ok (some b, _) => .ok (some (request need_read, b.capacity - b.length))

inductive Event
  /-- `do_read` is called: what `FIONREAD` says, and what there is to `read`; `none` stands
  for -1 -/
  | read (fionread : Option ℕ) (arrived : Option (List UInt8)) (junk : ℤ → UInt8) (p : BufPool)
  /-- `do_read` goes on to its next call -/
  | turn (p : BufPool)

/-- `TCPConn::clean_conn`, as far as the input buffer goes. -/
def cleanConn (ibuf : ReactorBuf) (p : BufPool) : Except Crash ReadTurns :=
  match ibuf.clear p with
  | .error f => .error f
  | .ok (ibuf, _) => .ok ⟨ibuf, .closed⟩

/-- `read_data`, and what `do_read` makes of its result. -/
def readData (fionread : Option ℕ) (arrived : Option (List UInt8)) (junk : ℤ → UInt8) (ibuf : ReactorBuf)
    (p : BufPool) : Except Crash ReadTurns :=
  if (fionread.map fun n : ℕ => ibuf.sumOverflows n) = some true then .error .outOfBounds
  else
    -- `read` brings no more than it is asked for
    let got := arrived.map fun bs => bs.take (request (fionread.getD 0)).toNat
    match ibuf.readData (fionread.map Nat.cast) got junk p with
    | .error f => .error f
    | .ok (ret, ibuf, p) => if ret = -1 ∨ ret = 0 then cleanConn ibuf p else .ok ⟨ibuf, .loop⟩

/-- `adjust`, the last call of `do_read`. -/
def adjust (ibuf : ReactorBuf) : Except Crash ReadTurns :=
  match ibuf.adjust with
  | .error f => .error f
  | .ok ibuf => .ok ⟨ibuf, .idle⟩

/-- The decode loop up to its next call. -/
def decode (ibuf : ReactorBuf) (p : BufPool) : Except Crash ReadTurns :=
  if ibuf.length < messageHeadLen then adjust ibuf
  else
    match ibuf.peek messageHeadLen with
    | .error f => .error f
    | .ok bs =>
      let head := MsgHead.ofBytes bs
      if messageLengthLimit < head.msglen.toInt ∨ head.msglen.toInt < 0 then cleanConn ibuf p
      else if ibuf.length < messageHeadLen + head.msglen.toInt then adjust ibuf
      else
        match ibuf.pop messageHeadLen p with
        | .error f => .error f
        | .ok (ibuf, _) => .ok ⟨ibuf, .body head.msglen.toInt⟩

/-- One call on the input buffer. -/
def step (s : ReadTurns) : Event → Except Crash ReadTurns
  | .read fionread arrived junk p =>
    match s.pc with
    | .idle => readData fionread arrived junk s.ibuf p
    | _ => .ok s
  | .turn p =>
    match s.pc with
    | .loop => decode s.ibuf p
    | .body msglen =>
      match s.ibuf.pop msglen p with
      | .error f => .error f
      | .ok (ibuf, _) => .ok ⟨ibuf, .loop⟩
    | _ => .ok s

end ReadTurns

end LbRpc
