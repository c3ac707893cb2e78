import LbRpc.Base.Runs
import LbRpc.Reactor.ReactorBuf

/-!
# An output buffer in use

One `OutputBuf` (`reactor/src/reactor_buf.cpp`) through its calls of `send_data` and
`write2fd`. The pool serves other buffers between two calls, so each call meets one.

* `OutputQueue.step`: the next call.
* `OutputQueue.accepted`, `taken`, `pending`: the data that was taken in, what the kernel has
  of it, and what the buffer has.
-/

namespace LbRpc

structure OutputQueue where
  obuf : ReactorBuf
  /-- the calls of `send_data`, each with its data and what it returned -/
  sends : List (List UInt8 × ℤ)
  /-- what the calls of `write` brought to the kernel -/
  taken : List UInt8

namespace OutputQueue

/-- The constructor. -/
def new : OutputQueue := ⟨.empty, [], []⟩

/-- A call. -/
inductive Event
  | sendData (data : List UInt8) (junk : ℤ → UInt8) (p : BufPool)
  /-- `write2fd`, where the kernel has room for so many bytes; none stands for `EAGAIN` -/
  | write2fd (room : ℕ)

/-- One call. `write2fd` is not called on a buffer without bytes. -/
def step (s : OutputQueue) : Event → Except Crash OutputQueue
  | .sendData data junk p =>
    if s.obuf.sumOverflows data.length then .error .outOfBounds
    else
      match s.obuf.sendData data junk p with
      | .error f => .error f
      | .ok (ret, obuf, _) => .ok { s with obuf := obuf, sends := s.sends ++ [(data, ret)] }
  | .write2fd room =>
    if 0 < s.obuf.length then
      match s.obuf.write2fd (some room) with
      | .error f => .error f
      | .ok (_, taken, obuf) => .ok { s with obuf := obuf, taken := s.taken ++ taken }
    else .ok s

/-- The data of the calls of `send_data` that returned 0. -/
def accepted (s : OutputQueue) : List UInt8 := (s.sends.filter (·.2 = 0)).flatMap (·.1)

/-- The bytes in the buffer. -/
def pending (s : OutputQueue) : List UInt8 := s.obuf.behind s.obuf.length.toNat

end OutputQueue

end LbRpc
