import LbRpc.Agent.LoadBalance

/-!
# The load balancers of one agent UDP server

`RouteLB` (`lb_agent/include/route_lb.h`, `lb_agent/src/route_lb.cpp`). Each call holds
`mutex_` from its first access to its last, so a call is one step.

* `step`: one call, whichever thread makes it. `resetLbStatus` is what the DNS client's
  connection hook `conn_init` calls on every `RouteLB`.
-/

namespace LbRpc

structure RouteLB where
  routeLbMap : AList fun _ : UInt64 => LoadBalance

/-- What `get_host` gives back: its return value, the response, and the request that
`pull` puts on the DNS client's queue. -/
structure HostReply where
  ret : RetCode
  rsp : Lbrss.GetHostResponse
  pulled : Option Lbrss.GetRouteRequest

/-- What `get_route` gives back. -/
structure RouteReply where
  ret : RetCode
  host : List Lbrss.HostInfo
  pulled : Option Lbrss.GetRouteRequest

namespace RouteLB

/-- The constructor. -/
def new : RouteLB := ⟨∅⟩

/-- `reset_lb_status` on one load balancer. -/
def resetStatus (lb : LoadBalance) : LoadBalance :=
  if lb.status = .pulling then { lb with status := .new } else lb

/-- `RouteLB::reset_lb_status`. -/
def resetLbStatus (rl : RouteLB) : RouteLB :=
  ⟨⟨rl.routeLbMap.entries.map (.map id fun _ => resetStatus), rl.routeLbMap.nodupKeys.map₂ _ _⟩⟩

/-- Put a load balancer under its key. -/
def set (rl : RouteLB) (k : UInt64) (lb : LoadBalance) : RouteLB := ⟨rl.routeLbMap.insert k lb⟩

/-- Pull again when the routes are not being pulled and are out of date. -/
def repull (E : Env) (now : ℤ) (lb : LoadBalance) : LoadBalance × Option Lbrss.GetRouteRequest :=
  if lb.status = .new ∧ E.config.updateTimeout < now - lb.lastUpdateTime then
    (lb.pull.1, some lb.pull.2)
  else (lb, none)

variable (E : Env)

/-- `RouteLB::get_host`; `junk` is what a new load balancer's `access_cnt_` holds. -/
def getHost (modid cmdid : Int32) (now : ℤ) (junk : Int32) (rl : RouteLB) :
    Except Fault (RouteLB × HostReply) :=
  match rl.routeLbMap.lookup (key modid cmdid) with
  | some lb =>
    if lb.empty then
      -- assert(lb->status_ == LoadBalance::PULLING)
      if lb.status = .pulling then .ok (rl, ⟨.succ, ⟨.noexist, none⟩, none⟩) else .error .assertFail
    else
      match lb.pickOneHost E with
      | .error f => .error f
      | .ok (lb, p) =>
        -- whatever the pick returned, routes that are out of date are pulled
        let r := repull E now lb
        .ok (rl.set (key modid cmdid) r.1, ⟨p.ret, ⟨p.ret, p.host⟩, r.2⟩)
  | none =>
    let r := (LoadBalance.new modid cmdid junk).pull
    .ok (rl.set (key modid cmdid) r.1, ⟨.noexist, ⟨.noexist, none⟩, some r.2⟩)

/-- Read the address of a host through its pointer. -/
def readHost (heap : Heap HostInfo) (a : Addr) : Except Fault Lbrss.HostInfo :=
  match heap.read a with
  | none => .error .dangling
  | some hi => .ok { ip := hi.ip.toInt32, port := hi.port }

/-- `RouteLB::get_route`. -/
def getRoute (modid cmdid : Int32) (now : ℤ) (junk : Int32) (rl : RouteLB) :
    Except Fault (RouteLB × RouteReply) :=
  match rl.routeLbMap.lookup (key modid cmdid) with
  | some lb =>
    match lb.getAllHosts.mapM (readHost lb.heap) with
    | .error f => .error f
    | .ok hosts =>
      let r := repull E now lb
      .ok (rl.set (key modid cmdid) r.1, ⟨.succ, hosts, r.2⟩)
  | none =>
    let r := (LoadBalance.new modid cmdid junk).pull
    .ok (rl.set (key modid cmdid) r.1, ⟨.noexist, [], some r.2⟩)

/-- `RouteLB::update_host`: a response without hosts deletes the load balancer. -/
def updateHost (modid cmdid : Int32) (currentTime : ℤ) (junk : Addr → Junk)
    (rsp : Lbrss.GetRouteResponse) (rl : RouteLB) : Except Fault RouteLB :=
  match rl.routeLbMap.lookup (key modid cmdid) with
  | some lb =>
    if rsp.host = [] then .ok ⟨rl.routeLbMap.erase (key modid cmdid)⟩
    else
      match lb.update E currentTime junk rsp with
      | .error f => .error f
      | .ok lb => .ok (rl.set (key modid cmdid) lb)
  | none => .ok rl

/-- `RouteLB::report_host`: the report, then the status report to the reporter. -/
def reportHost (req : Lbrss.ReportRequest) (currentTime ts commitTime : ℤ) (rl : RouteLB) :
    Except Fault (RouteLB × Option Lbrss.ReportStatusRequest) :=
  match rl.routeLbMap.lookup (key req.modid req.cmdid) with
  | some lb =>
    match lb.report E currentTime ts req.host.ip req.host.port req.retcode with
    | .error f => .error f
    | .ok (lb, _) =>
      match lb.commit E commitTime with
      | .error f => .error f
      | .ok sent => .ok (rl.set (key req.modid req.cmdid) lb, sent)
  | none => .ok (rl, none)

/-- A call on a `RouteLB`, with its clock readings and what fresh memory holds. -/
inductive Op
  | getHost (modid cmdid : Int32) (now : ℤ) (junk : Int32)
  | getRoute (modid cmdid : Int32) (now : ℤ) (junk : Int32)
  | reportHost (req : Lbrss.ReportRequest) (currentTime ts commitTime : ℤ)
  | updateHost (modid cmdid : Int32) (currentTime : ℤ) (junk : Addr → Junk) (rsp : Lbrss.GetRouteResponse)
  | resetLbStatus

/-- One call. -/
def step (rl : RouteLB) : Op → Except Fault RouteLB
  | .getHost modid cmdid now junk => (rl.getHost E modid cmdid now junk).map (·.1)
  | .getRoute modid cmdid now junk => (rl.getRoute E modid cmdid now junk).map (·.1)
  | .reportHost req currentTime ts commitTime =>
    (rl.reportHost E req currentTime ts commitTime).map (·.1)
  | .updateHost modid cmdid currentTime junk rsp => rl.updateHost E modid cmdid currentTime junk rsp
  | .resetLbStatus => .ok rl.resetLbStatus

end RouteLB

end LbRpc
