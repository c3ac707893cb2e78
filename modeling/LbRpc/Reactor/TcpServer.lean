import LbRpc.Base.LowestFree
import LbRpc.Base.RoundRobin
import LbRpc.Reactor.Message
import Mathlib.Algebra.BigOperators.Group.Finset.Basic
import Mathlib.Data.Fintype.Option

/-!
# The connections of a `TCPServer`

`reactor/src/tcp_server.cpp` and `thread_pool.cpp`: the thread in `do_accept`, which lets
connections in or turns them away, and the worker threads, which construct the `TCPConn`s
and clean them up (`tcp_conn.cpp`). Without worker threads the loop that runs `do_accept` does
this as well. They share `_curr_conns`, `conns` and the descriptor numbers of the process. One
step is one access to what is shared.

* `TcpServer.doAccept`, `TcpServer.go`: the next step of `do_accept` and of a worker.
* `TcpServer.openConns`: the connections that are queued or constructed, counted in
  `_curr_conns` or not (`uncounted`).
-/

namespace LbRpc

namespace TcpServer

/-- Where `do_accept` stands. -/
inductive Acceptor
  /-- in front of `accept` -/
  | idle
  /-- in front of `get_conn_num` -/
  | accepted (connfd : ℕ)
  /-- in front of the comparison with `_max_conns` -/
  | counted (connfd : ℕ) (cur_conns : ℤ)
  deriving DecidableEq

/-- Where a worker stands. -/
inductive Job
  | idle
  /-- at the end of the constructor, in front of `increase_conn` -/
  | increaseConn (connfd conn : ℕ)
  /-- `clean_conn`, in front of `decrease_conn` -/
  | decreaseConn (connfd : ℕ)
  /-- `clean_conn`, in front of `close` -/
  | close (connfd : ℕ)
  deriving DecidableEq

/-- A worker thread with its queue and its loop, or the loop of `do_accept`, whose queue stays empty. -/
structure Worker where
  /-- the `NEW_CONN` tasks of `ThreadQueue::_queue` -/
  queue : List ℕ
  /-- the descriptors of the connections on its loop -/
  online : List ℕ
  job : Job

/-- A `TCPServer` with `n` threads that has just been constructed. -/
structure Setup (n : ℕ) where
  /-- `_max_conns` -/
  maxConns : ℤ
  /-- the numbers of the listening socket, of the epoll and event descriptors, of the
  database and of all else that is open -/
  others : Finset ℕ
  /-- does the memory of `_thread_pool` read NULL? The constructor sets it only where `n` is positive -/
  poolNull : Bool

end TcpServer

structure TcpServer (n : ℕ) where
  openFds : Finset ℕ
  /-- those that are no connection's -/
  others : Finset ℕ
  acceptor : TcpServer.Acceptor
  /-- what was open when `accept` gave out its last number -/
  atAccept : Finset ℕ
  /-- `ThreadPool::_index`, where there is a pool -/
  index : Option (Fin n)
  /-- the worker threads, and at `none` the loop of `do_accept` -/
  workers : Option (Fin n) → TcpServer.Worker
  /-- `_curr_conns` -/
  currConns : ℤ
  conns : ℕ → Option ℕ
  /-- how many `TCPConn`s were made; the next one is the pointer of this number -/
  made : ℕ

namespace TcpServer

variable {n : ℕ}

def Setup.boot (p : Setup n) : TcpServer n where
  openFds := p.others
  others := p.others
  acceptor := .idle
  atAccept := p.others
  index := if h : 0 < n then some ⟨0, h⟩ else none
  workers := fun _ => ⟨[], [], .idle⟩
  currConns := 0
  conns := fun _ => none
  made := 0

/-- The next thing that happens. -/
inductive Event (n : ℕ)
  /-- `do_accept` goes on; the client that `accept` needs has connected -/
  | doAccept
  /-- a worker goes on -/
  | go (w : Option (Fin n))
  /-- `do_read` or `do_write` calls `clean_conn` -/
  | hangUp (w : Option (Fin n)) (connfd : ℕ)
  /-- the process opens another descriptor, such as a new connection to the database -/
  | openOther
  | closeOther (fd : ℕ)
  deriving DecidableEq

def modifyWorker (w : Option (Fin n)) (f : Worker → Worker) (s : TcpServer n) : TcpServer n :=
  { s with workers := Function.update s.workers w (f (s.workers w)) }

/-- `conns` has `_max_conns + 3` entries. -/
def Setup.HasIndex (p : Setup n) (connfd : ℕ) : Prop := (connfd : ℤ) < p.maxConns + 3

instance (p : Setup n) : DecidablePred p.HasIndex := fun _ => inferInstanceAs (Decidable (_ < _))

/-- `do_accept` lets a connection in: the next thread of the pool gets it, or, without a pool, the
constructor runs on the spot. -/
def letIn (p : Setup n) (connfd : ℕ) (s : TcpServer n) : Except Crash (TcpServer n) :=
  match s.index with
  | some i =>
    .ok { s.modifyWorker (some i) fun k => { k with queue := k.queue ++ [connfd] } with
      index := some (RoundRobin.next i), acceptor := .idle }
  | none =>
    if p.poolNull then
      .ok { s.modifyWorker none fun k => { k with job := .increaseConn connfd s.made } with
        made := s.made + 1, acceptor := .idle }
    else .error .wildPointer

/-- The next step of `do_accept`, unless its loop is busy with a connection of its own. The kernel
gives out the lowest number that is free. -/
def doAccept (p : Setup n) (s : TcpServer n) : Except Crash (TcpServer n) :=
  if (s.workers none).job ≠ .idle then .ok s
  else
    match s.acceptor with
    | .idle =>
      let connfd := LowestFree.lowest s.openFds
      .ok { s with openFds := insert connfd s.openFds, atAccept := s.openFds, acceptor := .accepted connfd }
    | .accepted connfd => .ok { s with acceptor := .counted connfd s.currConns }
    | .counted connfd cur_conns =>
      if cur_conns ≥ p.maxConns then .ok { s with openFds := s.openFds.erase connfd, acceptor := .idle }
      else s.letIn p connfd

/-- `increase_conn`, and the end of the constructor. -/
def increaseConn (p : Setup n) (w : Option (Fin n)) (connfd conn : ℕ) (s : TcpServer n) :
    Except Crash (TcpServer n) :=
  if p.HasIndex connfd then
    .ok { s.modifyWorker w fun k => { k with online := k.online ++ [connfd], job := .idle } with
      conns := Function.update s.conns connfd (some conn), currConns := s.currConns + 1 }
  else .error .outOfBounds

/-- `decrease_conn`. -/
def decreaseConn (p : Setup n) (w : Option (Fin n)) (connfd : ℕ) (s : TcpServer n) :
    Except Crash (TcpServer n) :=
  if p.HasIndex connfd then
    .ok { s.modifyWorker w fun k => { k with job := .close connfd } with
      conns := Function.update s.conns connfd none, currConns := s.currConns - 1 }
  else .error .outOfBounds

/-- The next step of a worker; one without a job comes to the next task of its queue
(`deal_task_message`). -/
def go (p : Setup n) (w : Option (Fin n)) (s : TcpServer n) : Except Crash (TcpServer n) :=
  match (s.workers w).job, (s.workers w).queue with
  | .idle, [] => .ok s
  | .idle, connfd :: queue =>
    .ok { s.modifyWorker w fun k => { k with queue := queue, job := .increaseConn connfd s.made } with
      made := s.made + 1 }
  | .increaseConn connfd conn, _ => s.increaseConn p w connfd conn
  | .decreaseConn connfd, _ => s.decreaseConn p w connfd
  | .close connfd, _ =>
    .ok { s.modifyWorker w fun k => { k with job := .idle } with openFds := s.openFds.erase connfd }

/-- `clean_conn` begins. The loop of `do_accept` comes to it between two calls of `do_accept`. -/
def hangUp (w : Option (Fin n)) (connfd : ℕ) (s : TcpServer n) : TcpServer n :=
  if ((s.workers w).job = .idle ∧ connfd ∈ (s.workers w).online) ∧ (w = none → s.acceptor = .idle) then
    s.modifyWorker w fun k => { k with online := k.online.erase connfd, job := .decreaseConn connfd }
  else s

/-- An event that cannot occur changes nothing. -/
def step (p : Setup n) (s : TcpServer n) : Event n → Except Crash (TcpServer n)
  | .doAccept => s.doAccept p
  | .go w => s.go p w
  | .hangUp w connfd => .ok (s.hangUp w connfd)
  | .openOther =>
    let fd := LowestFree.lowest s.openFds
    .ok { s with openFds := insert fd s.openFds, others := insert fd s.others }
  | .closeOther fd =>
    if fd ∈ s.others then .ok { s with openFds := s.openFds.erase fd, others := s.others.erase fd }
    else .ok s

/-! ## The connections that are open -/

/-- 1 for a job that holds a connection. -/
def Job.openConns : Job → ℕ
  | .idle => 0
  | _ => 1

/-- 1 for a job that holds a connection which `_curr_conns` does not count. -/
def Job.uncounted : Job → ℕ
  | .increaseConn _ _ => 1
  | .close _ => 1
  | _ => 0

def Worker.openConns (k : Worker) : ℕ := k.queue.length + k.online.length + k.job.openConns

def Worker.uncounted (k : Worker) : ℕ := k.queue.length + k.job.uncounted

/-- The accepted connections that are open: queued for a worker, or constructed. -/
def openConns (s : TcpServer n) : ℕ := ∑ w, (s.workers w).openConns

/-- Those that `_curr_conns` does not count: not yet, or no longer. -/
def uncounted (s : TcpServer n) : ℕ := ∑ w, (s.workers w).uncounted

end TcpServer

end LbRpc
