import LbRpc.Base.Ipv4
import LbRpc.Proto
import Mathlib.Data.List.Basic
import Mathlib.Logic.Function.Basic

/-!
# The API client

`APIClient` (`api/cpp/api/api.cpp`): three UDP sockets, each connected to one server of
the agent on the same host. What the agent sends back on a socket waits there in order. A
response is kept with the number of the request that it answers, which the code does not
see.

* `recvHost`: the receive loop of `get_host`.
* `step`: one `get_host` or `get_route` call.
* `report`: what a `report` call sends; nothing comes back for it.
-/

namespace LbRpc

/-- `inet_ntoa` of an `s_addr`, on a little-endian machine. -/
def inetNtoa (addr : UInt32) : List Char := (Ipv4.ofLittle addr).text

/-- The ip text and the port that the API makes of a host. -/
def ipPort (host : Lbrss.HostInfo) : List Char × Int32 := (inetNtoa host.ip.toUInt32, host.port)

/-- What a call leaves: its return value, the hosts it hands out, and the number of the
request whose response it was built from. -/
structure Outcome where
  ret : RetCode
  hosts : List (List Char × Int32)
  answers : Option ℕ
  deriving DecidableEq

/-- What the kernel does with a call: whether `sendto` succeeds, and which `recvfrom` of
the call is interrupted, if one is. -/
structure Io where
  sent : Bool
  interrupted : Option ℕ
  deriving DecidableEq

/-- A call that does not come back. -/
inductive ApiFault
  /-- the index is outside `sockfd_` -/
  | outOfRange
  /-- `recvfrom` waits for a response that no request is due -/
  | blocked
  deriving DecidableEq

structure APIClient where
  seqid : UInt32
  /-- what waits on each socket -/
  inbox : Fin 3 → List (ℕ × AgentReply)

namespace APIClient

/-- The constructor. -/
def new : APIClient := ⟨0, fun _ => []⟩

/-- The index that `get_host` computes. -/
def getHostIndex (modid cmdid : Int32) : Int32 := shard modid cmdid

/-- The index that `get_route` computes. -/
def getRouteIndex (modid cmdid : Int32) : Int32 := shard modid cmdid

/-- The index that `report` computes. -/
def reportIndex (modid cmdid : Int32) : Int32 := shard modid cmdid

/-- `sockfd_[index]`. -/
def sockfd (index : Int32) : Option (Fin 3) :=
  if index = 0 then some 0 else if index = 1 then some 1 else if index = 2 then some 2 else none

/-- A call that ends with `RET_SYSTEM_ERROR`. -/
def systemError : Outcome := ⟨.systemError, [], none⟩

/-- What `get_host` makes of the response it accepts. -/
def hostOutcome (id : ℕ) (rsp : Lbrss.GetHostResponse) : Outcome where
  ret := rsp.retcode
  hosts := if rsp.retcode = .succ then rsp.host.toList.map ipPort else []
  answers := some id

/-- What `get_route` makes of the response it accepts. -/
def routeOutcome (id : ℕ) (rsp : Lbrss.GetRouteResponse) : Outcome where
  ret := .succ
  hosts := rsp.host.map ipPort
  answers := some id

/-- The receive loop of `get_host` and the checks behind it: what is left on the socket,
and the outcome; `none` where it blocks. -/
def recvHost (seq : UInt32) (modid cmdid : Int32) :
    Option ℕ → List (ℕ × AgentReply) → Option (List (ℕ × AgentReply) × Outcome)
  | some 0, q => some (q, systemError)
  | _, [] => none
  | _, (_, .getRoute _) :: q => some (q, systemError)
  | interrupted, (id, .getHost seq' modid' cmdid' rsp) :: q =>
    if seq' < seq then recvHost seq modid cmdid (interrupted.map (· - 1)) q
    else if seq' ≠ seq ∨ modid' ≠ modid ∨ cmdid' ≠ cmdid then some (q, systemError)
    else some (q, hostOutcome id rsp)

/-- The one receive of `get_route` and its checks. -/
def recvRoute (modid cmdid : Int32) :
    Option ℕ → List (ℕ × AgentReply) → Option (List (ℕ × AgentReply) × Outcome)
  | some 0, q => some (q, systemError)
  | _, [] => none
  | _, (_, .getHost _ _ _ _) :: q => some (q, systemError)
  | _, (id, .getRoute rsp) :: q =>
    if rsp.modid ≠ modid ∨ rsp.cmdid ≠ cmdid then some (q, systemError)
    else some (q, routeOutcome id rsp)

/-- Send a request and receive on its socket. The agent answers the request once, behind
what it has sent before, or not at all. -/
def exchange (index : Int32) (io : Io) (id : ℕ) (answer : Option AgentReply)
    (recv : Option ℕ → List (ℕ × AgentReply) → Option (List (ℕ × AgentReply) × Outcome))
    (c : APIClient) : Except ApiFault (APIClient × Outcome) :=
  match sockfd index with
  | none => .error .outOfRange
  | some i =>
    if io.sent = false then .ok (c, systemError)
    else
      match recv io.interrupted (c.inbox i ++ answer.toList.map fun reply => (id, reply)) with
      | none => .error .blocked
      | some (q, o) => .ok ({ c with inbox := Function.update c.inbox i q }, o)

/-- `APIClient::get_host`; `rsp` is what the agent answers to this request, the number `id`
of all requests. -/
def getHost (modid cmdid : Int32) (io : Io) (id : ℕ) (rsp : Option Lbrss.GetHostResponse) (c : APIClient) :
    Except ApiFault (APIClient × Outcome) :=
  { c with seqid := c.seqid + 1 }.exchange (getHostIndex modid cmdid) io id
    (rsp.map fun rsp => .getHost c.seqid modid cmdid rsp) (recvHost c.seqid modid cmdid)

/-- `APIClient::get_route`; the request carries no sequence number. -/
def getRoute (modid cmdid : Int32) (io : Io) (id : ℕ) (hosts : Option (List Lbrss.HostInfo)) (c : APIClient) :
    Except ApiFault (APIClient × Outcome) :=
  c.exchange (getRouteIndex modid cmdid) io id (hosts.map fun hosts => .getRoute ⟨modid, cmdid, hosts⟩)
    (recvRoute modid cmdid)

/-- The request that `APIClient::report` makes. `inetAton` is `inet_aton`, whose return value
is not looked at: where it refuses the text, `inaddr` keeps what was in memory, `junk`. -/
def reportRequest (inetAton : List Char → Option UInt32) (junk : UInt32) (modid cmdid : Int32)
    (ip : List Char) (port retcode : Int32) : Lbrss.ReportRequest where
  modid := modid
  cmdid := cmdid
  host := { ip := ((inetAton ip).getD junk).toInt32, port := port }
  retcode := retcode

/-- `APIClient::report`: the request, and the socket that it goes to. -/
def report (inetAton : List Char → Option UInt32) (junk : UInt32) (modid cmdid : Int32)
    (ip : List Char) (port retcode : Int32) : Except ApiFault (Fin 3 × Lbrss.ReportRequest) :=
  match sockfd (reportIndex modid cmdid) with
  | none => .error .outOfRange
  | some i => .ok (i, reportRequest inetAton junk modid cmdid ip port retcode)

/-- A call, what the kernel does with it and what the agent answers; every answer is sent. -/
inductive Call
  | getHost (modid cmdid : Int32) (io : Io) (rsp : Lbrss.GetHostResponse)
  | getRoute (modid cmdid : Int32) (io : Io) (hosts : List Lbrss.HostInfo)

/-- One call; the state keeps the outcomes of the calls so far. -/
def step (s : APIClient × List Outcome) (e : Call) : Except ApiFault (APIClient × List Outcome) :=
  let r := match e with
    | .getHost modid cmdid io rsp => s.1.getHost modid cmdid io s.2.length (some rsp)
    | .getRoute modid cmdid io hosts => s.1.getRoute modid cmdid io s.2.length (some hosts)
  match r with
  | .error f => .error f
  | .ok (c, o) => .ok (c, s.2 ++ [o])

end APIClient

end LbRpc
