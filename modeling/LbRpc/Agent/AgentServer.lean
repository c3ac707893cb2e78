import LbRpc.Agent.AgentUdpServer
import LbRpc.Reactor.MsgRouter
import LbRpc.Reactor.Udp
import LbRpc.Wire.Messages

/-!
# One UDP server of the agent

`agent_server_main` and its callbacks (`lb_agent/src/agent_udp_server.cpp`), from the
datagram of a request to the datagram of its answer. A request that does not parse is not
followed any further.

* `AgentServer.deal`: a datagram that `recvfrom` brings.
* `AgentReply.message`: a response as it is handed to `send_message`.
-/

namespace LbRpc

/-- `ID_GetHostRequest` -/
def idGetHostRequest : Int32 := 4

/-- `ID_GetHostResponse` -/
def idGetHostResponse : Int32 := 5

/-- `ID_ReportRequest` -/
def idReportRequest : Int32 := 6

/-- `ID_API_GetRouteRequest` -/
def idApiGetRouteRequest : Int32 := 7

/-- `ID_API_GetRouteResponse` -/
def idApiGetRouteResponse : Int32 := 8

/-- The callbacks of the server. -/
inductive AgentCallback
  | getHost
  | report
  | getRoute
  deriving DecidableEq, Repr

/-- The three `add_msg_router` of `agent_server_main`, with the index in `r_lb`. -/
def agentRegistrations (index : Int32) : List (MsgRouter.Registration AgentCallback Int32) :=
  [⟨idGetHostRequest, .getHost, index⟩, ⟨idReportRequest, .report, index⟩, ⟨idApiGetRouteRequest, .getRoute, index⟩]

def agentRouter (index : Int32) : MsgRouter AgentCallback Int32 :=
  (MsgRouter.registerAll (agentRegistrations index) .new).2

/-- Ways in which the server stops. -/
inductive AgentStop
  | fault (f : Fault)
  | crash (c : Crash)
  | malformed
  deriving DecidableEq, Repr

/-- What a callback reads off the clock and finds in fresh memory, and whether its `sendto`
succeeds. -/
structure CallbackEnv where
  now : ℤ
  ts : ℤ
  commitTime : ℤ
  junk : Int32
  sent : Bool

/-- The longest datagram that IPv4 carries; `sendto` of a longer one fails. -/
def maxDatagram : ℕ := 65507

/-- `GetHostResponse` with all its fields. -/
def Lbrss.GetHostResponse.fields (seq : UInt32) (modid cmdid : Int32) (rsp : Lbrss.GetHostResponse) :
    Lbrss.GetHostResponseFields :=
  ⟨seq, modid, cmdid, rsp.retcode.toInt32, rsp.host⟩

/-- The request that `report_host` reads; a host that is not there has zeros. -/
def Lbrss.ReportRequestFields.request (req : Lbrss.ReportRequestFields) : Lbrss.ReportRequest :=
  ⟨req.modid, req.cmdid, req.host.getD ⟨0, 0⟩, req.retcode⟩

/-- A response as it is handed to `send_message`: its ID and its bytes. -/
def AgentReply.message (R : Wire.Runtime) : AgentReply → Message
  | .getHost seq modid cmdid rsp =>
    ⟨idGetHostResponse, (Lbrss.GetHostResponseFields.codec R).serialize (rsp.fields seq modid cmdid)⟩
  | .getRoute rsp => ⟨idApiGetRouteResponse, (Lbrss.GetRouteResponse.codec R).serialize rsp⟩

/-- A server with the `RouteLB` of its index. -/
structure AgentServer (α : Type*) where
  socket : UdpServer α
  routeLb : RouteLB

namespace AgentServer

variable {α : Type*} (R : Wire.Runtime) (E : Env)

/-- A callback sends its response, and does not look whether it has left. -/
def answer (rl : RouteLB) (reply : AgentReply) (sent : Bool) (s : AgentServer α) :
    Except AgentStop (AgentServer α × Option (α × List UInt8)) :=
  let m := reply.message R
  match s.socket.sendMessage (sent && decide (messageHeadLen + m.data.length ≤ maxDatagram)) m.msgid m.data with
  | .error f => .error (.crash f)
  | .ok (_, frame, socket) => .ok (⟨socket, rl⟩, frame)

/-- `get_host_cb` -/
def getHostCb (data : List UInt8) (env : CallbackEnv) (s : AgentServer α) :
    Except AgentStop (AgentServer α × Option (α × List UInt8)) :=
  match (Lbrss.GetHostRequest.codec R).parse (Lbrss.GetHostRequest.codec R).empty data with
  | none => .error .malformed
  | some req =>
    match LbRpc.getHostCb E req env.now env.junk s.routeLb with
    | .error f => .error (.fault f)
    | .ok (rl, reply) => s.answer R rl reply env.sent

/-- `get_route_cb` -/
def getRouteCb (data : List UInt8) (env : CallbackEnv) (s : AgentServer α) :
    Except AgentStop (AgentServer α × Option (α × List UInt8)) :=
  match (Lbrss.GetRouteRequest.codec R).parse (Lbrss.GetRouteRequest.codec R).empty data with
  | none => .error .malformed
  | some req =>
    match LbRpc.getRouteCb E req env.now env.junk s.routeLb with
    | .error f => .error (.fault f)
    | .ok (rl, reply) => s.answer R rl reply env.sent

/-- `report_cb`; it sends nothing back. -/
def reportCb (data : List UInt8) (env : CallbackEnv) (s : AgentServer α) :
    Except AgentStop (AgentServer α × Option (α × List UInt8)) :=
  match (Lbrss.ReportRequestFields.codec R).parse (Lbrss.ReportRequestFields.codec R).empty data with
  | none => .error .malformed
  | some req =>
    match s.routeLb.reportHost E req.request env.now env.ts env.commitTime with
    | .error f => .error (.fault f)
    | .ok (rl, _) => .ok (⟨s.socket, rl⟩, none)

/-- A call of `_router`. -/
def route (index : Int32) (call : Call) (env : CallbackEnv) (s : AgentServer α) :
    Except AgentStop (AgentServer α × Option (α × List UInt8)) :=
  match (agentRouter index).find call.msgid with
  | none => .ok (s, none)
  | some (.getHost, _) => s.getHostCb R E call.data env
  | some (.report, _) => s.reportCb R E call.data env
  | some (.getRoute, _) => s.getRouteCb R E call.data env

/-- One turn of the loop of `UDPServer::do_read`, with the callback of its datagram. -/
def deal (index : Int32) (src : α) (bs : List UInt8) (env : CallbackEnv) (s : AgentServer α) :
    Except AgentStop (AgentServer α × Option (α × List UInt8)) :=
  let dealt := { s.socket.toUdpSocket with calls := [] }.deal bs
  let s : AgentServer α := { s with socket := { toUdpSocket := dealt, clientAddr := src } }
  match dealt.calls with
  | [] => .ok (s, none)
  | call :: _ => s.route R E index call env

end AgentServer

end LbRpc
