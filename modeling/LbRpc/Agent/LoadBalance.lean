import LbRpc.Agent.HostInfo
import LbRpc.Base.Heap
import LbRpc.Base.Runs
import Mathlib.Data.List.AList
import Mathlib.Data.List.Sort

/-!
# The load balancer of one modid/cmdid

`LoadBalance` (`lb_agent/include/load_balance.h`, `lb_agent/src/load_balance.cpp`).
`host_map_` and the two lists hold pointers; the `HostInfo` objects live on a heap, so
a pointer to a deleted host is a state the model can reach, and reading through it is
the fault `dangling`.

* `step`: one call of `update`, `report`, `get_all_hosts` or `pick_one_host`.
-/

namespace LbRpc

/-- A `HostInfo*`. -/
abbrev Addr := ℕ

/-- Ways in which a call of the agent has no result. -/
inductive Fault
  /-- an `assert` of the source fails -/
  | assertFail
  /-- a deleted object is read or deleted -/
  | dangling
  /-- `front` of an empty list -/
  | emptyFront
  deriving DecidableEq, Repr

/-- `LoadBalance::STATUS`. -/
inductive Status
  | pulling
  | new
  deriving DecidableEq, Repr

structure LoadBalance where
  status : Status
  lastUpdateTime : ℤ
  modid : Int32
  cmdid : Int32
  accessCnt : Int32
  hostMap : AList fun _ : UInt64 => Addr
  idleList : List Addr
  overloadList : List Addr
  /-- the hosts made by `new HostInfo` and not deleted -/
  heap : Heap HostInfo

/-- Which of the two lists served a pick. -/
inductive Queue
  | idle
  | overload
  deriving DecidableEq, Repr

/-- The outcome of `pick_one_host`: what it returns, which list it served from, and
the host it put in the response. -/
structure Picked where
  ret : RetCode
  queue : Option Queue
  host : Option Lbrss.HostInfo
  deriving DecidableEq, Repr

namespace LoadBalance

/-- The constructor: `access_cnt_` keeps what was in memory. -/
def new (modid cmdid accessCnt : Int32) : LoadBalance where
  status := .pulling
  lastUpdateTime := 0
  modid := modid
  cmdid := cmdid
  accessCnt := accessCnt
  hostMap := ∅
  idleList := []
  overloadList := []
  heap := Heap.empty

/-- `LoadBalance::empty`. -/
def empty (lb : LoadBalance) : Bool := lb.hostMap.keys.isEmpty

/-- `get_host_from_list`: the front host, and the list with it moved to the back. -/
def getHostFromList (heap : Heap HostInfo) : List Addr → Except Fault (Lbrss.HostInfo × List Addr)
  | [] => .error .emptyFront
  | a :: l =>
    match heap.read a with
    | none => .error .dangling
    | some host => .ok ({ ip := host.ip.toInt32, port := host.port }, l ++ [a])

variable (E : Env)

/-- Serve the front of `overload_list_`. -/
def serveOverload (lb : LoadBalance) : Except Fault (LoadBalance × Picked) :=
  match getHostFromList lb.heap lb.overloadList with
  | .error f => .error f
  | .ok (host, l) => .ok ({ lb with accessCnt := 0, overloadList := l }, ⟨.succ, some .overload, some host⟩)

/-- Serve the front of `idle_list_`. -/
def serveIdle (lb : LoadBalance) : Except Fault (LoadBalance × Picked) :=
  match getHostFromList lb.heap lb.idleList with
  | .error f => .error f
  | .ok (host, l) =>
    .ok ({ lb with accessCnt := lb.accessCnt + 1, idleList := l }, ⟨.succ, some .idle, some host⟩)

/-- `LoadBalance::pick_one_host`. -/
def pickOneHost (lb : LoadBalance) : Except Fault (LoadBalance × Picked) :=
  if lb.idleList = [] then
    if E.config.probeNum ≤ lb.accessCnt then lb.serveOverload
    else .ok ({ lb with accessCnt := lb.accessCnt + 1 }, ⟨.overload, none, none⟩)
  else if lb.overloadList ≠ [] ∧ E.config.probeNum ≤ lb.accessCnt then lb.serveOverload
  else lb.serveIdle

/-- `LoadBalance::pull`: the request goes to the DNS client's queue. -/
def pull (lb : LoadBalance) : LoadBalance × Lbrss.GetRouteRequest :=
  ({ lb with status := .pulling }, { modid := lb.modid, cmdid := lb.cmdid })

/-- One round of the first loop of `update`: a key that is not in the map gets a new
idle host. -/
def insertHost (junk : Addr → Junk) (lb : LoadBalance) (h : Lbrss.HostInfo) : LoadBalance :=
  if (lb.hostMap.lookup (key h.ip h.port)).isSome then lb
  else
    { lb with
      hostMap := lb.hostMap.insert (key h.ip h.port) lb.heap.next
      idleList := lb.idleList ++ [lb.heap.next]
      heap := lb.heap.alloc
        (HostInfo.new h.ip.toUInt32 h.port E.config.initSuccCnt.toUInt32 (junk lb.heap.next)) }

/-- One round of the last loop of `update`. The entry stays in `host_map_`. -/
def deleteHost (lb : LoadBalance) (k : UInt64) : Except Fault LoadBalance :=
  match lb.hostMap.lookup k with
  -- `host_map_[key]` of a missing key is a null pointer
  | none => .error .dangling
  | some a =>
    match lb.heap.read a with
    | none => .error .dangling
    | some hi =>
      if hi.overload = true then
        .ok { lb with overloadList := lb.overloadList.filter (· ≠ a), heap := lb.heap.free a }
      else .ok { lb with idleList := lb.idleList.filter (· ≠ a), heap := lb.heap.free a }

/-- The keys named by a response. -/
def remoteHosts (rsp : Lbrss.GetRouteResponse) : List UInt64 :=
  rsp.host.map fun h => key h.ip h.port

/-- The keys of the map that a response does not name, in `std::set` order. -/
def needDelete (rsp : Lbrss.GetRouteResponse) (lb : LoadBalance) : List UInt64 :=
  (lb.hostMap.keys.filter (· ∉ remoteHosts rsp)).insertionSort (· ≤ ·)

/-- `LoadBalance::update`. -/
def update (currentTime : ℤ) (junk : Addr → Junk) (rsp : Lbrss.GetRouteResponse) (lb : LoadBalance) :
    Except Fault LoadBalance :=
  if rsp.host = [] then .error .assertFail
  else
    let lb := rsp.host.foldl (insertHost E junk) lb
    -- the keys to delete are collected before the first one is deleted
    match Runs.run deleteHost lb (lb.needDelete rsp) with
    | .error f => .error f
    | .ok lb => .ok { lb with lastUpdateTime := currentTime, status := .new }

/-- The list moves that go with a verdict of `report`. -/
def requeue (a : Addr) (lb : LoadBalance) : HostInfo.Verdict → LoadBalance
  | .toOverload | .windowOverload =>
    { lb with idleList := lb.idleList.filter (· ≠ a), overloadList := lb.overloadList ++ [a] }
  | .toIdle | .timeoutIdle =>
    { lb with overloadList := lb.overloadList.filter (· ≠ a), idleList := lb.idleList ++ [a] }
  | .windowReset | .stay => lb

/-- `LoadBalance::report`; no verdict for a key that is not in the map. -/
def report (currentTime ts : ℤ) (ip port retcode : Int32) (lb : LoadBalance) :
    Except Fault (LoadBalance × Option HostInfo.Verdict) :=
  match lb.hostMap.lookup (key ip port) with
  | none => .ok (lb, none)
  | some a =>
    match lb.heap.read a with
    | none => .error .dangling
    | some hi =>
      let r := hi.report E currentTime ts retcode
      -- the verdict was made on the host alone; the lists follow it
      .ok (requeue a { lb with heap := lb.heap.modify a fun _ => r.1 } r.2, some r.2)

/-- One entry of a status report. -/
def callResult (heap : Heap HostInfo) (overload : Bool) (a : Addr) :
    Except Fault Lbrss.HostCallResult :=
  match heap.read a with
  | none => .error .dangling
  | some hi =>
    .ok { ip := hi.ip.toInt32, port := hi.port, succ := hi.rsucc, err := hi.rerr, overload := overload }

/-- `LoadBalance::commit`: the request that goes to the report client's queue. -/
def commit (now : ℤ) (lb : LoadBalance) : Except Fault (Option Lbrss.ReportStatusRequest) :=
  if lb.empty then .ok none
  else do
    let idle ← lb.idleList.mapM (callResult lb.heap false)
    let overload ← lb.overloadList.mapM (callResult lb.heap true)
    return some
      { modid := lb.modid
        cmdid := lb.cmdid
        caller := E.config.localIp.toInt32
        results := idle ++ overload
        ts := UInt32.ofNat (now % 2 ^ 32).toNat }

/-- `LoadBalance::get_all_hosts`: the pointers of the map. -/
def getAllHosts (lb : LoadBalance) : List Addr := lb.hostMap.entries.map (·.2)

/-- A call on a load balancer, with the clock readings of the call and what fresh
memory holds. -/
inductive Op
  | update (currentTime : ℤ) (junk : Addr → Junk) (rsp : Lbrss.GetRouteResponse)
  | report (currentTime ts : ℤ) (ip port retcode : Int32)
  | getAllHosts
  | pickOneHost

/-- One call. -/
def step (lb : LoadBalance) : Op → Except Fault LoadBalance
  | .update currentTime junk rsp => lb.update E currentTime junk rsp
  | .report currentTime ts ip port retcode =>
    match lb.report E currentTime ts ip port retcode with
    | .error f => .error f
    | .ok r => .ok r.1
  | .getAllHosts => .ok lb
  | .pickOneHost =>
    match lb.pickOneHost E with
    | .error f => .error f
    | .ok r => .ok r.1

end LoadBalance

end LbRpc
