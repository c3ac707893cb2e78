import LbRpc.Agent.RouteLB

/-!
# The agent's UDP servers and the client of the DNS service

Which `RouteLB` serves a request (`lb_agent/src/agent_udp_server.cpp`) and which one takes
a response of the DNS service (`lb_agent/src/dns_client.cpp`); the callbacks that answer
the API.
-/

namespace LbRpc

/-- The `port` of `agent_server_main`: a `short`. -/
def agentPort (startPort : Int32) (index : Fin 3) : Int16 :=
  (Int64.ofNat index + startPort.toInt64).toInt16

/-- The port that the server binds: the constructor takes a `uint16_t`. -/
def boundPort (startPort : Int32) (index : Fin 3) : UInt16 := (agentPort startPort index).toUInt16

/-- The index in `r_lb[port - lb_config.start_port]`. -/
def serverIndex (startPort : Int32) (index : Fin 3) : Int32 :=
  (agentPort startPort index).toInt32 - startPort

/-- The index that `deal_recv_route` computes. -/
def dealRecvRouteIndex (modid cmdid : Int32) : Int32 := shard modid cmdid

/-- The port to which `sockfd_[i]` of the API is connected. -/
def apiPort (i : Fin 3) : UInt16 := 8888 + UInt16.ofNat i

variable (E : Env)

/-- `get_host_cb`. -/
def getHostCb (req : Lbrss.GetHostRequest) (now : ℤ) (junk : Int32) (rl : RouteLB) :
    Except Fault (RouteLB × AgentReply) :=
  match rl.getHost E req.modid req.cmdid now junk with
  | .error f => .error f
  | .ok (rl, reply) => .ok (rl, .getHost req.seq req.modid req.cmdid reply.rsp)

/-- `get_route_cb`. -/
def getRouteCb (req : Lbrss.GetRouteRequest) (now : ℤ) (junk : Int32) (rl : RouteLB) :
    Except Fault (RouteLB × AgentReply) :=
  match rl.getRoute E req.modid req.cmdid now junk with
  | .error f => .error f
  | .ok (rl, reply) => .ok (rl, .getRoute ⟨req.modid, req.cmdid, reply.host⟩)

end LbRpc
