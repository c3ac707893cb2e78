import LbRpc.Base.Heap
import LbRpc.Dns.Service
import LbRpc.Reactor.EventLoop
import Mathlib.Data.Finset.Union

/-!
# The threads of the DNS service

`main` of `dns/src/dns_service.cpp` as it runs: the thread that accepts connections, the
worker loops of the `TCPServer`, and the thread `check_route_changes`. They share
`TCPServer::conns`, the two lists of `SubscribeList` (`dns/src/subscribe.cpp`), the routes
and the descriptor numbers. One step is one access to what is shared; what a thread does in
between is part of the step before.

* `Job`: where a worker stands in the constructor and `clean_conn` of a `TCPConn`, in
  `get_route` and in `push_change_task`.
* `DnsServer.step`: any thread goes on, in any order.
* `DnsServer.pushes`: what a step of `push_change_task` sends, and where.
-/

namespace LbRpc

/-- A `TCPConn*`. -/
abbrev ConnAddr := ℕ

/-- A `TCPConn` on one of `n` loops, with its `client_sub_mod_list`. It stays in memory when it
is closed. -/
structure DnsConn (n : ℕ) where
  /-- `_connfd` -/
  connfd : Fd
  loop : Fin n
  param : Option (Finset UInt64)
  /-- the responses sent so far, each with the number of the route map it was made from -/
  sent : List (Lbrss.GetRouteResponse × ℕ)

/-- `TaskMsg`: the only task that is sent is `push_change_task`. -/
inductive TaskMsg
  | newConn (connfd : Fd)
  | newTask
  deriving DecidableEq

/-- Where a worker stands: in front of the statement of this name, on this connection. -/
inductive Job
  | idle
  /-- the constructor, behind `create_subscribe` -/
  | addIoEvent (c : ConnAddr)
  | increaseConn (c : ConnAddr)
  /-- `get_route`, behind the insertion into the list of the connection -/
  | subscribe (c : ConnAddr) (req : Lbrss.GetRouteRequest)
  | getHosts (c : ConnAddr) (req : Lbrss.GetRouteRequest)
  | respond (c : ConnAddr) (req : Lbrss.GetRouteRequest) (hosts : Finset UInt64) (map : ℕ)
  /-- `clear_subscribe`, with the part of the list that is still to be walked -/
  | unsubscribe (c : ConnAddr) (rest : Finset UInt64)
  /-- `clean_conn`, behind `clear_subscribe` -/
  | decreaseConn (c : ConnAddr)
  | delIoEvent (c : ConnAddr)
  | close (c : ConnAddr)
  /-- `push_change_task` -/
  | makePublishMap
  /-- the loop over `need_publish`, with the part that is still to be walked -/
  | pushNext (rest : Finset (Fd × UInt64))
  | pushHosts (fd : Fd) (mod : UInt64) (rest : Finset (Fd × UInt64))
  | push (fd : Fd) (mod : UInt64) (hosts : Finset UInt64) (map : ℕ) (rest : Finset (Fd × UInt64))
  deriving DecidableEq

/-- A worker thread with its queue and its loop. -/
structure DnsWorker where
  /-- `ThreadQueue::_queue` -/
  queue : List TaskMsg
  /-- how many tasks `_ready_tasks` holds -/
  readyTasks : ℕ
  /-- `_io_evs`: the `args` of the callbacks of a connection -/
  ioEvs : Fd → Option ConnAddr
  job : Job
  /-- how many tasks it has finished -/
  tasksRun : ℕ

/-- A call of `publish`, with the number of the route map at that time. -/
structure Announcement where
  changes : Finset UInt64
  map : ℕ

/-- The process when no client has connected yet. -/
structure Process (n : ℕ) where
  openFds : Finset Fd
  /-- `_evfd` of each worker -/
  evfd : Fin n → Fd
  evfd_open : ∀ w, evfd w ∈ openFds
  evfd_inj : Function.Injective evfd
  nonneg : ∀ fd ∈ openFds, 0 ≤ fd
  /-- what `new TCPConn*[]` holds -/
  conns : Fd → Option ConnAddr
  route : Route
  route_new : ∃ version rows, Route.new version rows = some route
  /-- `back_sche_time` -/
  waitTime : ℤ
  now : ℤ

structure DnsServer (n : ℕ) where
  openFds : Finset Fd
  heap : Heap (DnsConn n)
  /-- `TCPServer::conns` -/
  conns : Fd → Option ConnAddr
  workers : Fin n → DnsWorker
  /-- `_book_list` -/
  bookList : UInt64 → Option (Finset Fd)
  /-- `_push_list` -/
  pushList : Fd → Option (Finset UInt64)
  checker : Checker
  /-- the worker that `send_task` comes to next, while `publish` is under way -/
  sending : Option ℕ
  /-- every map that was the data map so far -/
  maps : List RouteMap
  /-- the calls of `publish` so far -/
  published : List Announcement

/-- `SubscribeList::subscribe`. -/
def bookInsert (mod : UInt64) (fd : Fd) (book : UInt64 → Option (Finset Fd)) :
    UInt64 → Option (Finset Fd) :=
  Function.update book mod (some (insert fd ((book mod).getD ∅)))

/-- `SubscribeList::unsubscribe`. -/
def bookErase (mod : UInt64) (fd : Fd) (book : UInt64 → Option (Finset Fd)) :
    UInt64 → Option (Finset Fd) :=
  match book mod with
  | none => book
  | some fds => Function.update book mod (if fds.erase fd = ∅ then none else some (fds.erase fd))

/-- The loops of `SubscribeList::publish`: a changed mod goes to every descriptor that is
booked for it. -/
def pushInsert (changes : Finset UInt64) (book : UInt64 → Option (Finset Fd))
    (push : Fd → Option (Finset UInt64)) (fd : Fd) : Option (Finset UInt64) :=
  let mods := changes.filter fun mod => fd ∈ (book mod).getD ∅
  if mods = ∅ then push fd else some ((push fd).getD ∅ ∪ mods)

/-- The pairs that `make_publish_map` moves to `need_publish` with the entries of `fds`. -/
def needPublish (fds : Finset Fd) (push : Fd → Option (Finset UInt64)) : Finset (Fd × UInt64) :=
  fds.biUnion fun fd => ((push fd).getD ∅).image fun mod => (fd, mod)

namespace Process

variable {n : ℕ}

/-- No client has connected, and `check_route_changes` starts. -/
def boot (p : Process n) : DnsServer n where
  openFds := p.openFds
  heap := .empty
  conns := p.conns
  workers := fun _ => ⟨[], 0, fun _ => none, .idle, 0⟩
  bookList := fun _ => none
  pushList := fun _ => none
  checker := .new p.route p.now
  sending := none
  maps := [p.route.data]
  published := []

end Process

namespace DnsServer

variable {n : ℕ}

/-- The next thing that one of the threads does. Where the source walks over a set, the
event says what comes next, and where it sends, whether there was room. -/
inductive Event (n : ℕ)
  /-- `do_accept` gets a descriptor for worker `w` -/
  | accept (w : Fin n) (connfd : Fd)
  /-- `deal_task_message` comes to the task in front -/
  | recv (w : Fin n)
  /-- `do_read` calls `get_route` -/
  | request (w : Fin n) (fd : Fd) (req : Lbrss.GetRouteRequest)
  /-- `do_read` or `do_write` calls `clean_conn` -/
  | hangUp (w : Fin n) (fd : Fd)
  /-- `execute_ready_tasks` comes to a task -/
  | runTask (w : Fin n)
  /-- the next statement, where nothing is left open -/
  | go (w : Fin n)
  | respond (w : Fin n) (walk : List UInt64) (room : Bool)
  | unsubscribe (w : Fin n) (mod : UInt64)
  | makePublishMap (w : Fin n) (fds : Finset Fd)
  | pushNext (w : Fin n) (fd : Fd) (mod : UInt64)
  | push (w : Fin n) (walk : List UInt64) (room : Bool)
  /-- the next statement of `check_route_changes`, which finds these tables -/
  | checker (ok : Bool) (now : ℤ) (db : Db)

def modifyWorker (w : Fin n) (f : DnsWorker → DnsWorker) (s : DnsServer n) : DnsServer n :=
  { s with workers := Function.update s.workers w (f (s.workers w)) }

def setJob (w : Fin n) (j : Job) (s : DnsServer n) : DnsServer n :=
  s.modifyWorker w fun k => { k with job := j }

def modifyConn (c : ConnAddr) (f : DnsConn n → DnsConn n) (s : DnsServer n) : DnsServer n :=
  { s with heap := s.heap.modify c f }

/-- `ThreadQueue::send`. -/
def send (w : Fin n) (task : TaskMsg) (s : DnsServer n) : DnsServer n :=
  s.modifyWorker w fun k => { k with queue := k.queue ++ [task] }

/-- `get_listen_fds` of worker `w` has this descriptor. -/
def Online (p : Process n) (w : Fin n) (s : DnsServer n) (fd : Fd) : Prop :=
  fd = p.evfd w ∨ (s.workers w).ioEvs fd ≠ none

instance (p : Process n) (w : Fin n) (s : DnsServer n) : DecidablePred (s.Online p w) :=
  fun _ => inferInstanceAs (Decidable (_ ∨ _))

/-- The number of the map that `get_hosts` reads. -/
def mapNumber (s : DnsServer n) : ℕ := s.maps.length - 1

/-- The first statements of `get_route`. -/
def getRoute (w : Fin n) (c : ConnAddr) (conn : DnsConn n) (req : Lbrss.GetRouteRequest)
    (s : DnsServer n) : DnsServer n :=
  match conn.param with
  | none => s
  | some subList =>
    if subscribeKey req ∈ subList then s.setJob w (.getHosts c req)
    else
      (s.modifyConn c fun b => { b with param := some (insert (subscribeKey req) subList) }).setJob w
        (.subscribe c req)

/-- Follow a `TCPConn*`. -/
def withConn (c : ConnAddr) (f : DnsConn n → DnsServer n) (s : DnsServer n) : Except Crash (DnsServer n) :=
  match s.heap.read c with
  | none => .error .outOfBounds
  | some conn => .ok (f conn)

/-- `deal_task_message` at the task in front; a new connection runs `create_subscribe`. -/
def recv (w : Fin n) (s : DnsServer n) : DnsServer n :=
  match (s.workers w).queue with
  | [] => s
  | .newTask :: queue =>
    s.modifyWorker w fun k => { k with queue := queue, readyTasks := k.readyTasks + 1 }
  | .newConn connfd :: queue =>
    { s with heap := s.heap.alloc ⟨connfd, w, some ∅, []⟩ }.modifyWorker w fun k =>
      { k with queue := queue, job := .addIoEvent s.heap.next }

/-- A worker without a job begins one. -/
def begin (w : Fin n) (s : DnsServer n) : Event n → Except Crash (DnsServer n)
  | .recv _ => .ok (s.recv w)
  | .request _ fd req =>
    match (s.workers w).ioEvs fd with
    | none => .ok s
    | some c => s.withConn c fun conn => s.getRoute w c conn req
  | .hangUp _ fd =>
    match (s.workers w).ioEvs fd with
    | none => .ok s
    | some c =>
      match s.heap.read c with
      | none => .error .outOfBounds
      | some conn =>
        match conn.param with
        -- `clear_subscribe` follows the pointer without a check
        | none => .error .outOfBounds
        | some subList => .ok (s.setJob w (.unsubscribe c subList))
  | .runTask _ =>
    match (s.workers w).readyTasks with
    | 0 => .ok s
    | k + 1 => .ok (s.modifyWorker w fun v => { v with readyTasks := k, job := .makePublishMap })
  | _ => .ok s

/-- The next statement of worker `w`, where nothing is left open. -/
def go (w : Fin n) (s : DnsServer n) : Except Crash (DnsServer n) :=
  match (s.workers w).job with
  | .addIoEvent c => s.withConn c fun conn => s.modifyWorker w fun k =>
      { k with ioEvs := Function.update k.ioEvs conn.connfd (some c), job := .increaseConn c }
  | .increaseConn c => s.withConn c fun conn =>
      { s with conns := Function.update s.conns conn.connfd (some c) }.setJob w .idle
  | .subscribe c req => s.withConn c fun conn =>
      { s with bookList := bookInsert (subscribeKey req) conn.connfd s.bookList }.setJob w (.getHosts c req)
  | .getHosts c req =>
    .ok (s.setJob w (.respond c req (s.checker.route.getHosts req.modid req.cmdid) s.mapNumber))
  | .unsubscribe c rest =>
    if rest = ∅ then .ok ((s.modifyConn c fun b => { b with param := none }).setJob w (.decreaseConn c))
    else .ok s
  | .decreaseConn c => s.withConn c fun conn =>
      { s with conns := Function.update s.conns conn.connfd none }.setJob w (.delIoEvent c)
  | .delIoEvent c => s.withConn c fun conn => s.modifyWorker w fun k =>
      { k with ioEvs := Function.update k.ioEvs conn.connfd none, job := .close c }
  | .close c => s.withConn c fun conn =>
      ({ s with openFds := s.openFds.erase conn.connfd }.modifyConn c fun b =>
        { b with connfd := -1 }).setJob w .idle
  | .pushNext rest =>
    if rest = ∅ then .ok (s.modifyWorker w fun k => { k with job := .idle, tasksRun := k.tasksRun + 1 })
    else .ok s
  | .pushHosts fd mod rest =>
    .ok (s.setJob w (.push fd mod (LbRpc.pushHosts mod s.checker.route) s.mapNumber rest))
  | _ => .ok s

/-- `get_route` sends its response. -/
def respond (w : Fin n) (walk : List UInt64) (room : Bool) (s : DnsServer n) : Except Crash (DnsServer n) :=
  match (s.workers w).job with
  | .respond c req hosts map =>
    if Walks walk hosts then s.withConn c fun _ =>
      (s.modifyConn c fun b =>
        if room then { b with sent := b.sent ++ [(routeResponse req.modid req.cmdid walk, map)] }
        else b).setJob w .idle
    else .ok s
  | _ => .ok s

/-- `clear_subscribe` comes to a mod of its list. -/
def unsubscribe (w : Fin n) (mod : UInt64) (s : DnsServer n) : Except Crash (DnsServer n) :=
  match (s.workers w).job with
  | .unsubscribe c rest =>
    if mod ∈ rest then s.withConn c fun conn =>
      { s with bookList := bookErase mod conn.connfd s.bookList }.setJob w (.unsubscribe c (rest.erase mod))
    else .ok s
  | _ => .ok s

/-- `SubscribeList::make_publish_map`. Its loop advances an iterator whose entry it has
erased, so it may miss entries: `fds` are the ones it comes to. -/
def makePublishMap (p : Process n) (w : Fin n) (fds : Finset Fd) (s : DnsServer n) : DnsServer n :=
  match (s.workers w).job with
  | .makePublishMap =>
    if ∀ fd ∈ fds, s.pushList fd ≠ none ∧ s.Online p w fd then
      { s with pushList := fun fd => if fd ∈ fds then none else s.pushList fd }.setJob w
        (.pushNext (needPublish fds s.pushList))
    else s
  | _ => s

/-- `push_change_task` comes to an entry of `need_publish`. -/
def pushNext (w : Fin n) (fd : Fd) (mod : UInt64) (s : DnsServer n) : DnsServer n :=
  match (s.workers w).job with
  | .pushNext rest =>
    if (fd, mod) ∈ rest then s.setJob w (.pushHosts fd mod (rest.erase (fd, mod))) else s
  | _ => s

/-- The response that `push_change_task` builds. -/
def pushResponse (mod : UInt64) (walk : List UInt64) : Lbrss.GetRouteResponse :=
  routeResponse (pushPair mod).1 (pushPair mod).2 walk

/-- `push_change_task` sends its response, if `conns` has a connection. -/
def push (w : Fin n) (walk : List UInt64) (room : Bool) (s : DnsServer n) : Except Crash (DnsServer n) :=
  match (s.workers w).job with
  | .push fd mod hosts map rest =>
    if Walks walk hosts then
      match s.conns fd with
      -- `if (conn != NULL)`
      | none => .ok (s.setJob w (.pushNext rest))
      | some c => s.withConn c fun _ =>
        (s.modifyConn c fun b =>
          if room then { b with sent := b.sent ++ [(pushResponse mod walk, map)] } else b).setJob w
          (.pushNext rest)
    else .ok s
  | _ => .ok s

/-- The next statement of `check_route_changes`. -/
def check (p : Process n) (ok : Bool) (now : ℤ) (db : Db) (s : DnsServer n) : DnsServer n :=
  let next := (s.checker.step p.waitTime ok now db).1
  match s.sending, s.checker.pc with
  -- the loop of `send_task` over the queues
  | some i, _ =>
    if h : i < n then { s.send ⟨i, h⟩ .newTask with sending := some (i + 1) }
    else { s with sending := none, checker := next }
  | none, .publish changes =>
    { s with
      pushList := pushInsert changes s.bookList s.pushList
      sending := some 0
      published := s.published ++ [⟨changes, s.mapNumber⟩] }
  | none, .swap => { s with checker := next, maps := s.maps ++ [next.route.data] }
  | none, .reloadSwap => { s with checker := next, maps := s.maps ++ [next.route.data] }
  | none, _ => { s with checker := next }

/-- The worker of an event, and whether it is one that a worker without a job takes. -/
def Event.beginner : Event n → Option (Fin n)
  | .recv w => some w
  | .request w _ _ => some w
  | .hangUp w _ => some w
  | .runTask w => some w
  | _ => none

/-- One of the threads goes on. An event that cannot occur changes nothing. -/
def step (p : Process n) (s : DnsServer n) (e : Event n) : Except Crash (DnsServer n) :=
  match e with
  | .accept w connfd =>
    if 0 ≤ connfd ∧ connfd ∉ s.openFds then
      .ok { s.send w (.newConn connfd) with openFds := insert connfd s.openFds }
    else .ok s
  | .go w => s.go w
  | .respond w walk room => s.respond w walk room
  | .unsubscribe w mod => s.unsubscribe w mod
  | .makePublishMap w fds => .ok (s.makePublishMap p w fds)
  | .pushNext w fd mod => .ok (s.pushNext w fd mod)
  | .push w walk room => s.push w walk room
  | .checker ok now db => .ok (s.check p ok now db)
  | e =>
    match e.beginner with
    | none => .ok s
    | some w =>
      match (s.workers w).job with
      | .idle => s.begin w e
      | _ => .ok s

/-- What an event makes `push_change_task` send, and the connection it is sent on. -/
def pushes (s : DnsServer n) : Event n → Option (ConnAddr × Lbrss.GetRouteResponse)
  | .push w walk true =>
    match (s.workers w).job with
    | .push fd mod hosts _ _ =>
      if Walks walk hosts then (s.conns fd).map fun c => (c, pushResponse mod walk) else none
    | _ => none
  | _ => none

end DnsServer

end LbRpc
