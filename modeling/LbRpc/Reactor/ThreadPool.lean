import LbRpc.Base.Runs
import LbRpc.Reactor.EventLoop

/-!
# Messages to the workers

`ThreadQueue` (`reactor/include/thread_queue.h`), `ThreadPool` and `deal_task_message`
(`reactor/src/thread_pool.cpp`), and the ready tasks of an `EventLoop`
(`reactor/src/eventloop.cpp`).

A step is one `ThreadQueue::send`, by whatever thread, or one statement of a worker; `recv`
is one step too, as both hold the mutex. A task is of any type; no task calls `add_task`.
The counter of an eventfd does not come near its bound.

* `Worker.go`: the next statement of a worker.
* `ThreadPool.step`: the next step of the pool, `sendTask` and `advance` for `send_task`.
-/

namespace LbRpc

namespace ThreadPool

/-- `TaskMsg`. `call` is the number of the call of `send_task` that the task is from. -/
inductive TaskMsg (τ : Type*)
  | newConn (connfd : Fd)
  | newTask (task : τ) (call : Option ℕ)

/-- Where a worker stands. -/
inductive Pc (τ : Type*)
  /-- `thread_main` in front of `set_callback` -/
  | setCallback
  /-- `event_process` in front of `epoll_wait` -/
  | epollWait
  /-- `deal_task_message` in front of `recv` -/
  | fired
  /-- the loop of `deal_task_message`, with what is left of its queue -/
  | deal (tasks : List (TaskMsg τ))
  /-- the loop of `execute_ready_tasks`, from its iterator on -/
  | execute (rest : List (τ × Option ℕ))

/-- A worker with its `ThreadQueue` and its loop, and what has happened to it. -/
structure Worker (τ : Type*) where
  pc : Pc τ
  /-- `_queue` -/
  queue : List (TaskMsg τ)
  /-- the counter of `_evfd` -/
  evfd : ℕ
  /-- `_ready_tasks` -/
  readyTasks : List (τ × Option ℕ)
  /-- the descriptors for which it made a `TCPConn` -/
  conns : List Fd
  /-- the tasks that it ran -/
  ran : List (τ × Option ℕ)
  /-- what it was sent -/
  sent : List (TaskMsg τ)

namespace Worker

variable {τ : Type*}

/-- The worker when `pthread_create` returns. -/
def new : Worker τ := ⟨.setCallback, [], 0, [], [], [], []⟩

/-- `ThreadQueue::send`. -/
def send (task : TaskMsg τ) (k : Worker τ) : Worker τ :=
  { k with queue := k.queue ++ [task], evfd := k.evfd + 1, sent := k.sent ++ [task] }

/-- `ThreadQueue::recv`: a read of `_evfd` zeroes it, and the queues are swapped. -/
def recv (k : Worker τ) : Worker τ := { k with pc := .deal k.queue, queue := [], evfd := 0 }

/-- The next statement of a worker. `epoll_wait` reports `_evfd` when it can be read. -/
def go (k : Worker τ) : Worker τ :=
  match k.pc with
  | .setCallback => { k with pc := .epollWait }
  | .epollWait => if 0 < k.evfd then { k with pc := .fired } else { k with pc := .execute k.readyTasks }
  | .fired => k.recv
  | .deal [] => { k with pc := .execute k.readyTasks }
  | .deal (.newConn connfd :: tasks) => { k with pc := .deal tasks, conns := k.conns ++ [connfd] }
  | .deal (.newTask task call :: tasks) =>
    { k with pc := .deal tasks, readyTasks := k.readyTasks ++ [(task, call)] }
  | .execute [] => { k with pc := .epollWait, readyTasks := [] }
  | .execute (task :: rest) => { k with pc := .execute rest, ran := k.ran ++ [task] }

/-- `epoll_wait` comes back without `_evfd`: it waited too early, or has other events only. -/
def pass (k : Worker τ) : Worker τ :=
  match k.pc with
  | .epollWait => { k with pc := .execute k.readyTasks }
  | _ => k

end Worker

/-- A call of `send_task`, and the `i` of its loop. -/
structure Call (τ : Type*) where
  task : τ
  i : ℕ

end ThreadPool

/-- The workers, and the calls of `send_task` so far. -/
structure ThreadPool (n : ℕ) (τ : Type*) where
  workers : Fin n → ThreadPool.Worker τ
  calls : List (ThreadPool.Call τ)

namespace ThreadPool

variable {n : ℕ} {τ : Type*}

/-- The next thing that happens. -/
inductive Event (n : ℕ) (τ : Type*)
  /-- `send` of a `NEW_CONN` -/
  | sendConn (w : Fin n) (connfd : Fd)
  /-- `send` of a `NEW_TASK` to one worker alone -/
  | sendOne (w : Fin n) (task : τ)
  /-- a thread calls `send_task` -/
  | sendTask (task : τ)
  /-- the loop of this call of `send_task` goes on -/
  | advance (call : ℕ)
  /-- a worker goes on -/
  | go (w : Fin n)
  /-- an `epoll_wait` of a worker comes back without `_evfd` -/
  | pass (w : Fin n)

/-- The constructor. -/
def new (n : ℕ) (τ : Type*) : ThreadPool n τ := ⟨fun _ => .new, []⟩

def modify (w : Fin n) (f : Worker τ → Worker τ) (s : ThreadPool n τ) : ThreadPool n τ :=
  { s with workers := Function.update s.workers w (f (s.workers w)) }

/-- The next turn of the loop of `send_task`; a call that is through does nothing. -/
def advance (call : ℕ) (s : ThreadPool n τ) : ThreadPool n τ :=
  match s.calls[call]? with
  | none => s
  | some c =>
    if h : c.i < n then
      { s.modify ⟨c.i, h⟩ (Worker.send (.newTask c.task (some call))) with
        calls := s.calls.set call { c with i := c.i + 1 } }
    else s

def apply (s : ThreadPool n τ) : Event n τ → ThreadPool n τ
  | .sendConn w connfd => s.modify w (Worker.send (.newConn connfd))
  | .sendOne w task => s.modify w (Worker.send (.newTask task none))
  | .sendTask task => { s with calls := s.calls ++ [⟨task, 0⟩] }
  | .advance call => s.advance call
  | .go w => s.modify w Worker.go
  | .pass w => s.modify w Worker.pass

/-- The pool as a machine of `Runs`; no step fails. -/
def step (s : ThreadPool n τ) (e : Event n τ) : Except Empty (ThreadPool n τ) := .ok (s.apply e)

end ThreadPool

end LbRpc
