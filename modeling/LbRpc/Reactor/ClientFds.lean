import Mathlib.Logic.Function.Basic
import LbRpc.Reactor.ClientLoop

/-!
# The descriptor of the TCP client among those of the process

`_sockfd` of `TCPClient` (`reactor/src/tcp_client.cpp`), from its constructor to its
destructor, over the descriptor table of the process. Other threads open and close
descriptors between any two statements of the client, and the kernel may hand out any
number that is not open.

The hooks of the client may call it back, so a `clean_conn` can find another one, or a
`do_connect`, inside its `_conn_close_cb`.

* `ClientFds.construct`: the constructor has come to `socket`.
* `ClientFds.step`: the next thing that the client or another thread does.
* `ClientFds.closes`: every `close` that the client made, and whose descriptor it was.
-/

namespace LbRpc

/-- Who opened a descriptor: the client, or one of the other threads `τ`. -/
inductive FdOwner (τ : Type*)
  | client
  | other (t : τ)
  deriving DecidableEq, Repr

/-- Where the client stands. -/
inductive ClientPc
  /-- between two calls, or in a hook -/
  | idle
  /-- in `do_connect`, before `socket` -/
  | socket
  /-- in `do_connect`, before `connect` -/
  | connect
  /-- behind the destructor -/
  | gone
  deriving DecidableEq, Repr

structure ClientFds (τ : Type*) where
  /-- the open descriptors, each with the one who opened it -/
  owner : Fd → Option (FdOwner τ)
  /-- the threads that got the number and have not closed it since -/
  held : Fd → List τ
  /-- `_sockfd` -/
  sockfd : Fd
  pc : ClientPc
  /-- the calls of `clean_conn` that are in their hook: `do_connect` comes next in each -/
  due : ℕ
  /-- each number that the client closed, and who had it open -/
  closes : List (Fd × Option (FdOwner τ))

namespace ClientFds

variable {τ : Type*}

/-- What happens next. -/
inductive Event (τ : Type*)
  /-- a call of `do_connect` -/
  | doConnect
  /-- `socket` returns -/
  | socket (fd : Fd)
  /-- `connect` returns -/
  | connect (result : ConnectResult)
  /-- a call of `clean_conn` -/
  | cleanConn
  /-- the hook of a `clean_conn` is over -/
  | reconnect
  /-- the destructor -/
  | destroy
  /-- another thread gets a descriptor -/
  | otherOpen (t : τ) (fd : Fd)
  /-- another thread closes a descriptor that it got -/
  | otherClose (t : τ) (fd : Fd)
  deriving DecidableEq, Repr

/-- The constructor at `socket`; `owner` are the descriptors that others have open. -/
def construct (owner : Fd → Option τ) : ClientFds τ where
  owner := fun fd => (owner fd).map .other
  held := fun fd => (owner fd).toList
  sockfd := -1
  pc := .socket
  due := 0
  closes := []

/-- The client calls `close(_sockfd)`. -/
def close (s : ClientFds τ) : ClientFds τ :=
  { s with
    owner := Function.update s.owner s.sockfd none
    closes := s.closes ++ [(s.sockfd, s.owner s.sockfd)] }

/-- `TCPClient::do_connect` up to `socket`. -/
def doConnect (s : ClientFds τ) : ClientFds τ :=
  { (if s.sockfd ≠ -1 then s.close else s) with pc := .socket }

/-- `TCPClient::clean_conn` up to its hook. It does not change `_sockfd`. -/
def cleanConn (s : ClientFds τ) : ClientFds τ :=
  { (if s.sockfd ≠ -1 then s.close else s) with due := s.due + 1 }

/-- `TCPClient::~TCPClient`. -/
def destroy (s : ClientFds τ) : ClientFds τ := { s.close with pc := .gone }

/-- The kernel can hand out a number. -/
def Free (s : ClientFds τ) (fd : Fd) : Prop := 0 ≤ fd ∧ s.owner fd = none

instance [DecidableEq τ] (s : ClientFds τ) (fd : Fd) : Decidable (s.Free fd) :=
  inferInstanceAs (Decidable (_ ∧ _))

variable [DecidableEq τ]

/-- One step. An event that cannot occur changes nothing. -/
def step (s : ClientFds τ) : Event τ → Except Ending (ClientFds τ)
  | .doConnect => .ok (if s.pc = .idle then s.doConnect else s)
  | .socket fd =>
    if s.pc = .socket then
      if fd = -1 then .error .exit
      else if s.Free fd then
        .ok { s with owner := Function.update s.owner fd (some .client), sockfd := fd, pc := .connect }
      else .ok s
    else .ok s
  | .connect result =>
    if s.pc = .connect then
      if result = .failed then .error .exit else .ok { s with pc := .idle }
    else .ok s
  | .cleanConn => .ok (if s.pc = .idle then s.cleanConn else s)
  | .reconnect =>
    .ok (if s.pc = .idle ∧ s.due ≠ 0 then { s with due := s.due - 1 }.doConnect else s)
  | .destroy => .ok (if s.pc = .idle ∧ s.due = 0 then s.destroy else s)
  | .otherOpen t fd =>
    .ok (if s.Free fd then
        { s with
          owner := Function.update s.owner fd (some (.other t))
          held := Function.update s.held fd (t :: s.held fd) }
      else s)
  | .otherClose t fd =>
    .ok (if t ∈ s.held fd then
        { s with
          owner := Function.update s.owner fd none
          held := Function.update s.held fd ((s.held fd).filter (· ≠ t)) }
      else s)

end ClientFds

end LbRpc
