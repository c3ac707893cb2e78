import LbRpc.Agent.AgentUdpServer
import LbRpc.Reactor.Message
import LbRpc.Wire.Messages

/-!
# The agent's client of the DNS service

The callbacks of `dns_client_thread` (`lb_agent/src/dns_client.cpp`). A response that does
not parse is not followed any further.

* `newDnsRequest`: the message for a request that was taken off `dns_queue`.
* `dealRecvRoute`: what a call of the client's router does to the three `RouteLB`.
-/

namespace LbRpc

/-- `ID_GetRouteRequest` -/
def idGetRouteRequest : Int32 := 1

/-- `ID_GetRouteResponse` -/
def idGetRouteResponse : Int32 := 2

/-- `r_lb` -/
abbrev RouteLBs := Fin 3 → RouteLB

/-- Ways in which the DNS client's thread stops. -/
inductive DnsClientStop
  | fault (f : Fault)
  /-- the index is outside `r_lb` -/
  | outOfRange
  | malformed
  deriving DecidableEq, Repr

/-- `new_dns_request`, for one request of the queue: what goes to `send_message`. -/
def newDnsRequest (R : Wire.Runtime) (req : Lbrss.GetRouteRequest) : Message :=
  ⟨idGetRouteRequest, (Lbrss.GetRouteRequest.codec R).serialize req⟩

/-- A response of the DNS service as it is handed to `send_message`, by `get_route` and by
`push_change_task`. -/
def dnsResponse (R : Wire.Runtime) (rsp : Lbrss.GetRouteResponse) : Message :=
  ⟨idGetRouteResponse, (Lbrss.GetRouteResponse.codec R).serialize rsp⟩

namespace RouteLBs

variable (R : Wire.Runtime) (E : Env)

/-- `r_lb[index]` -/
def slot (index : Int32) : Option (Fin 3) :=
  if h : 0 ≤ index ∧ index.toInt.toNat < 3 then some ⟨index.toInt.toNat, h.2⟩ else none

/-- `deal_recv_route` behind the parser. -/
def recvRoute (rsp : Lbrss.GetRouteResponse) (now : ℤ) (junk : Addr → Junk) (lbs : RouteLBs) :
    Except DnsClientStop RouteLBs :=
  match slot (dealRecvRouteIndex rsp.modid rsp.cmdid) with
  | none => .error .outOfRange
  | some i =>
    match (lbs i).updateHost E rsp.modid rsp.cmdid now junk rsp with
    | .error f => .error (.fault f)
    | .ok rl => .ok (Function.update lbs i rl)

/-- `deal_recv_route` -/
def dealRecvRoute (data : List UInt8) (now : ℤ) (junk : Addr → Junk) (lbs : RouteLBs) :
    Except DnsClientStop RouteLBs :=
  match (Lbrss.GetRouteResponse.codec R).parse (Lbrss.GetRouteResponse.codec R).empty data with
  | none => .error .malformed
  | some rsp => recvRoute E rsp now junk lbs

/-- The client's router: one callback, and an ID that is not registered is passed over. -/
def call (c : Call) (now : ℤ) (junk : Addr → Junk) (lbs : RouteLBs) : Except DnsClientStop RouteLBs :=
  if c.msgid = idGetRouteResponse then dealRecvRoute R E c.data now junk lbs else .ok lbs

end RouteLBs

end LbRpc
