import LbRpc.Agent.DnsClient
import LbRpc.Base.Runs

/-!
# The agent's requests to the DNS service

The three UDP servers pull routes: their requests wait on `dns_queue`, the DNS client's
thread sends them over its connection, and the responses come back to the `RouteLB` that
asked (`lb_agent/src/route_lb.cpp`, `lb_agent/src/dns_client.cpp`). A call on a `RouteLB`
holds its mutex, and puts its request on the queue while it does, so it is one step. The DNS
client's thread stops between any two of its accesses to what is shared.

* `DnsJob`: where the DNS client's thread stands.
* `PullNet.step`: any thread goes on, or the service does, in any order.

A connection is lost between two messages, and a read ends with one: bytes of a message that was
written or read in part are not followed.
-/

namespace LbRpc

/-- A request of the API as its server takes it, with the clock readings of the call. -/
inductive ApiCall
  | getHost (modid cmdid : Int32) (now : ℤ) (junk : Int32)
  | getRoute (modid cmdid : Int32) (now : ℤ) (junk : Int32)
  | report (req : Lbrss.ReportRequest) (currentTime ts commitTime : ℤ)

namespace ApiCall

/-- The index that the API computes for its request. -/
def index : ApiCall → Int32
  | .getHost modid cmdid _ _ => shard modid cmdid
  | .getRoute modid cmdid _ _ => shard modid cmdid
  | .report req _ _ _ => shard req.modid req.cmdid

/-- The call, and the request that it puts on `dns_queue`. -/
def run (E : Env) (rl : RouteLB) : ApiCall → Except Fault (RouteLB × Option Lbrss.GetRouteRequest)
  | .getHost modid cmdid now junk => (rl.getHost E modid cmdid now junk).map fun r => (r.1, r.2.pulled)
  | .getRoute modid cmdid now junk => (rl.getRoute E modid cmdid now junk).map fun r => (r.1, r.2.pulled)
  | .report req currentTime ts commitTime =>
    (rl.reportHost E req currentTime ts commitTime).map fun r => (r.1, none)

end ApiCall

/-- Where the DNS client's thread stands. -/
inductive DnsJob
  | idle
  /-- the loop of `new_dns_request` over `msgs` -/
  | sending (msgs : List Lbrss.GetRouteRequest)
  /-- the loop of `conn_init`, in front of `r_lb[i]` -/
  | resetting (i : Fin 3)
  deriving DecidableEq

structure PullNet where
  lbs : RouteLBs
  /-- `dns_queue` -/
  queue : List Lbrss.GetRouteRequest
  job : DnsJob
  /-- `connected` of the client -/
  connected : Bool
  /-- taken by `send_message`, and not served yet -/
  up : List Lbrss.GetRouteRequest
  /-- sent by the service on this connection, and not dealt with yet -/
  down : List Lbrss.GetRouteResponse
  /-- the requests that `send_message` of either side has refused, or that went down with their
  connection, since the hook of a connection was last called -/
  lost : List Lbrss.GetRouteRequest

namespace PullNet

/-- The next thing that happens. Where a message is sent, the event says whether there was
room. -/
inductive Event
  | api (c : ApiCall)
  /-- `new_dns_request` takes what is on the queue -/
  | takeQueue
  /-- it comes to the next message -/
  | send (room : Bool)
  /-- the connection is there, and `conn_init` is called -/
  | connect
  /-- `conn_init` comes to the next `RouteLB` -/
  | reset
  /-- `deal_recv_route` -/
  | receive (now : ℤ) (junk : Addr → Junk)
  /-- `get_route` of the service -/
  | serve (hosts : List Lbrss.HostInfo) (room : Bool)
  /-- `push_change_task` of the service -/
  | push (rsp : Lbrss.GetRouteResponse)
  /-- the connection is lost, when so many messages have been written -/
  | close (written : ℕ)

/-- Nothing has happened, and the client may be connected without its hook: its constructor
connects before the hook is set. -/
def start (connected : Bool) : PullNet := ⟨fun _ => .new, [], .idle, connected, [], [], []⟩

/-- The pair of a response. -/
def pairOf (rsp : Lbrss.GetRouteResponse) : Lbrss.GetRouteRequest := ⟨rsp.modid, rsp.cmdid⟩

variable (E : Env)

def api (c : ApiCall) (s : PullNet) : Except DnsClientStop PullNet :=
  match RouteLBs.slot c.index with
  | none => .error .outOfRange
  | some i =>
    match c.run E (s.lbs i) with
    | .error f => .error (.fault f)
    | .ok (rl, pulled) =>
      .ok { s with lbs := Function.update s.lbs i rl, queue := s.queue ++ pulled.toList }

/-- The loop of `new_dns_request`. -/
def send (room : Bool) (s : PullNet) : PullNet :=
  match s.job with
  | .sending [] => { s with job := .idle }
  | .sending (req :: msgs) =>
    if s.connected && room then { s with job := .sending msgs, up := s.up ++ [req] }
    else { s with job := .sending msgs, lost := s.lost ++ [req] }
  | _ => s

/-- The loop of `conn_init` comes to the index `i`. -/
def resetFrom (i : ℕ) : DnsJob := if h : i < 3 then .resetting ⟨i, h⟩ else .idle

/-- The loop of `conn_init`. -/
def reset (s : PullNet) : PullNet :=
  match s.job with
  | .resetting i =>
    { s with
      lbs := Function.update s.lbs i (s.lbs i).resetLbStatus
      job := resetFrom (i.val + 1) }
  | _ => s

def receive (now : ℤ) (junk : Addr → Junk) (s : PullNet) : Except DnsClientStop PullNet :=
  match s.job, s.down with
  | .idle, rsp :: down =>
    match RouteLBs.recvRoute E rsp now junk s.lbs with
    | .error f => .error f
    | .ok lbs => .ok { s with lbs := lbs, down := down }
  | _, _ => .ok s

def serve (hosts : List Lbrss.HostInfo) (room : Bool) (s : PullNet) : PullNet :=
  match s.up with
  | [] => s
  | req :: up =>
    if room then { s with up := up, down := s.down ++ [⟨req.modid, req.cmdid, hosts⟩] }
    else { s with up := up, lost := s.lost ++ [req] }

/-- One step. An event that cannot occur changes nothing. -/
def step (s : PullNet) : Event → Except DnsClientStop PullNet
  | .api c => s.api E c
  | .takeQueue => if s.job = .idle then .ok { s with job := .sending s.queue, queue := [] } else .ok s
  | .send room => .ok (s.send room)
  | .connect =>
    if s.job = .idle ∧ s.connected = false then .ok { s with job := resetFrom 0, connected := true, lost := [] }
    else .ok s
  | .reset => .ok s.reset
  | .receive now junk => s.receive E now junk
  | .serve hosts room => if s.connected then .ok (s.serve hosts room) else .ok s
  | .push rsp => if s.connected then .ok { s with down := s.down ++ [rsp] } else .ok s
  | .close written =>
    if s.job = .idle ∧ s.connected then
      .ok { s with
        connected := false
        up := s.up.drop written
        down := []
        lost := s.lost ++ s.up.take written ++ s.down.map pairOf }
    else .ok s

end PullNet

end LbRpc
