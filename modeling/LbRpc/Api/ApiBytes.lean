import LbRpc.Agent.AgentServer
import LbRpc.Api.ApiClient

/-!
# API and agent, by their datagrams and by their messages

`APIClient` (`api/cpp/api/api.cpp`) writes its requests into datagrams and reads responses
out of them; the agent's three servers answer. Whatever other clients and threads do with a
server between two calls is an event of its own.

* `ByteNet.step`: one call of the API by the bytes that travel.
* `MessageNet.step`: the same call by the messages.
* `MessageNet.regInit`: `reg_init`, between whatever else happens.

A datagram from the agent is longer than a head, and one that has left the agent is not lost.
-/

namespace LbRpc

/-- `sizeof(read_buf)` of the API. -/
def apiBufSize : ℕ := 80 * 1024

/-- What a call leaves, with its return value as the `int` that it is. -/
structure ApiResult where
  ret : Int32
  hosts : List (List Char × Int32)
  answers : Option ℕ
  deriving DecidableEq

def Outcome.result (o : Outcome) : ApiResult := ⟨o.ret.toInt32, o.hosts, o.answers⟩

/-- A request in `write_buf`: `head.msglen` is the size that was computed for its bytes. -/
def apiFrame (msgid : Int32) (size : ℕ) (bytes : List UInt8) : List UInt8 :=
  (MsgHead.mk msgid (Int32.ofNat size)).toBytes ++ bytes

/-- A call of the API, or anything else that happens to a server of the agent. -/
inductive NetEvent
  | getHost (modid cmdid : Int32) (io : Io) (env : CallbackEnv)
  | getRoute (modid cmdid : Int32) (io : Io) (env : CallbackEnv)
  | report (modid cmdid : Int32) (ip : List Char) (port retcode : Int32) (junk : UInt32) (sent : Bool)
    (env : CallbackEnv)
  /-- other calls on a `RouteLB`, and what they leave in the buffers of its server -/
  | other (i : Fin 3) (op : RouteLB.Op) (socket : UdpServer ℕ)

/-- Ways in which a call has no result. -/
inductive NetStop (φ : Type)
  | api (f : ApiFault)
  | agent (f : φ)
  deriving DecidableEq

/-- The API with the datagrams that wait on its sockets, and the agent. The API's socket `i` has
the address `i`. -/
structure ByteNet where
  seqid : UInt32
  inbox : Fin 3 → List (ℕ × List UInt8)
  servers : Fin 3 → AgentServer ℕ
  results : List ApiResult

/-- The same by messages. -/
structure MessageNet where
  api : APIClient
  lbs : Fin 3 → RouteLB
  outcomes : List Outcome

namespace ByteNet

variable (R : Wire.Runtime) (E : Env) (inetAton : List Char → Option UInt32)

def systemError : ApiResult := ⟨RetCode.toInt32 .systemError, [], none⟩

/-- What `get_host` makes of the response it accepts. -/
def hostResult (id : ℕ) (rsp : Lbrss.GetHostResponseFields) : ApiResult where
  ret := rsp.retcode
  hosts := if rsp.retcode = 0 then [ipPort (rsp.host.getD ⟨0, 0⟩)] else []
  answers := some id

/-- What `get_route` makes of the response it accepts. -/
def routeResult (id : ℕ) (rsp : Lbrss.GetRouteResponse) : ApiResult where
  ret := RetCode.toInt32 .succ
  hosts := rsp.host.map ipPort
  answers := some id

/-- The receive loop of `get_host` and the checks behind it. -/
def recvHost (seq : UInt32) (modid cmdid : Int32) :
    Option ℕ → List (ℕ × List UInt8) → Option (List (ℕ × List UInt8) × ApiResult)
  | some 0, q => some (q, systemError)
  | _, [] => none
  | interrupted, (id, bs) :: q =>
    let got := bs.take apiBufSize
    if (MsgHead.ofBytes got).msgid ≠ idGetHostResponse then some (q, systemError)
    else
      match (Lbrss.GetHostResponseFields.codec R).parse (Lbrss.GetHostResponseFields.codec R).empty
          (got.drop messageHeadLen) with
      | none => some (q, systemError)
      | some rsp =>
        if rsp.seq < seq then recvHost seq modid cmdid (interrupted.map (· - 1)) q
        else if rsp.seq ≠ seq ∨ rsp.modid ≠ modid ∨ rsp.cmdid ≠ cmdid then some (q, systemError)
        else some (q, hostResult id rsp)

/-- The one receive of `get_route` and its checks. -/
def recvRoute (modid cmdid : Int32) :
    Option ℕ → List (ℕ × List UInt8) → Option (List (ℕ × List UInt8) × ApiResult)
  | some 0, q => some (q, systemError)
  | _, [] => none
  | _, (id, bs) :: q =>
    let got := bs.take apiBufSize
    if (MsgHead.ofBytes got).msgid ≠ idApiGetRouteResponse then some (q, systemError)
    else
      match (Lbrss.GetRouteResponse.codec R).parse (Lbrss.GetRouteResponse.codec R).empty
          (got.drop messageHeadLen) with
      | none => some (q, systemError)
      | some rsp =>
        if rsp.modid ≠ modid ∨ rsp.cmdid ≠ cmdid then some (q, systemError) else some (q, routeResult id rsp)

/-- A datagram goes to server `i`, and its answer to the socket that it came from. -/
def ask (i : Fin 3) (frame : List UInt8) (env : CallbackEnv) (s : ByteNet) :
    Except (NetStop AgentStop) ByteNet :=
  match (s.servers i).deal R E (Int32.ofNat i) i.val frame env with
  | .error f => .error (.agent f)
  | .ok (server, reply) =>
    .ok { s with
      servers := Function.update s.servers i server
      inbox := Function.update s.inbox i
        (s.inbox i ++ (reply.toList.filter (·.1 = i.val)).map fun r => (s.results.length, r.2)) }

/-- Send a request and receive on its socket. -/
def exchange (index : Int32) (io : Io) (frame : List UInt8) (env : CallbackEnv)
    (recv : Option ℕ → List (ℕ × List UInt8) → Option (List (ℕ × List UInt8) × ApiResult))
    (s : ByteNet) : Except (NetStop AgentStop) ByteNet :=
  match APIClient.sockfd index with
  | none => .error (.api .outOfRange)
  | some i =>
    if io.sent = false then .ok { s with results := s.results ++ [systemError] }
    else
      match s.ask R E i frame env with
      | .error f => .error f
      | .ok s =>
        match recv io.interrupted (s.inbox i) with
        | none => .error (.api .blocked)
        | some (q, r) => .ok { s with inbox := Function.update s.inbox i q, results := s.results ++ [r] }

/-- `APIClient::get_host` -/
def getHost (modid cmdid : Int32) (io : Io) (env : CallbackEnv) (s : ByteNet) :
    Except (NetStop AgentStop) ByteNet :=
  let req : Lbrss.GetHostRequest := ⟨s.seqid, modid, cmdid⟩
  { s with seqid := s.seqid + 1 }.exchange R E (APIClient.getHostIndex modid cmdid) io
    (apiFrame idGetHostRequest ((Lbrss.GetHostRequest.codec R).byteSize req)
      ((Lbrss.GetHostRequest.codec R).serialize req)) env (recvHost R s.seqid modid cmdid)

/-- `APIClient::get_route` -/
def getRoute (modid cmdid : Int32) (io : Io) (env : CallbackEnv) (s : ByteNet) :
    Except (NetStop AgentStop) ByteNet :=
  let req : Lbrss.GetRouteRequest := ⟨modid, cmdid⟩
  s.exchange R E (APIClient.getRouteIndex modid cmdid) io
    (apiFrame idApiGetRouteRequest ((Lbrss.GetRouteRequest.codec R).byteSize req)
      ((Lbrss.GetRouteRequest.codec R).serialize req)) env (recvRoute R modid cmdid)

/-- `APIClient::report` -/
def report (modid cmdid : Int32) (ip : List Char) (port retcode : Int32) (junk : UInt32) (sent : Bool)
    (env : CallbackEnv) (s : ByteNet) : Except (NetStop AgentStop) ByteNet :=
  match APIClient.report inetAton junk modid cmdid ip port retcode with
  | .error f => .error (.api f)
  | .ok (i, req) =>
    let req : Lbrss.ReportRequestFields := ⟨req.modid, req.cmdid, some req.host, req.retcode⟩
    if sent = false then .ok s
    else
      s.ask R E i (apiFrame idReportRequest ((Lbrss.ReportRequestFields.codec R).byteSize req)
        ((Lbrss.ReportRequestFields.codec R).serialize req)) env

/-- One event, by the bytes that travel. -/
def step (s : ByteNet) : NetEvent → Except (NetStop AgentStop) ByteNet
  | .getHost modid cmdid io env => s.getHost R E modid cmdid io env
  | .getRoute modid cmdid io env => s.getRoute R E modid cmdid io env
  | .report modid cmdid ip port retcode junk sent env =>
    s.report R E inetAton modid cmdid ip port retcode junk sent env
  | .other i op socket =>
    match (s.servers i).routeLb.step E op with
    | .error f => .error (.agent (.fault f))
    | .ok rl => .ok { s with servers := Function.update s.servers i ⟨socket, rl⟩ }

/-- The API and the agent when they have started; the buffers of the servers hold anything. -/
def new (sockets : Fin 3 → UdpServer ℕ) : ByteNet := ⟨0, fun _ => [], fun i => ⟨sockets i, .new⟩, []⟩

end ByteNet

namespace MessageNet

variable (E : Env) (inetAton : List Char → Option UInt32)

/-- The agent's part of a call: server `i` serves it, if the request was sent at all. -/
def serve {α : Type} (sent : Bool) (index : Int32) (call : RouteLB → Except Fault (RouteLB × α)) (unsent : α)
    (s : MessageNet) : Except (NetStop Fault) (MessageNet × α) :=
  match APIClient.sockfd index with
  | none => .error (.api .outOfRange)
  | some i =>
    if sent = false then .ok (s, unsent)
    else
      match call (s.lbs i) with
      | .error f => .error (.agent f)
      | .ok (rl, a) => .ok ({ s with lbs := Function.update s.lbs i rl }, a)

/-- The API's part, with the response that it waits for. -/
def finish (r : Except ApiFault (APIClient × Outcome)) (s : MessageNet) : Except (NetStop Fault) MessageNet :=
  match r with
  | .error f => .error (.api f)
  | .ok (api, o) => .ok { s with api := api, outcomes := s.outcomes ++ [o] }

def getHost (modid cmdid : Int32) (io : Io) (env : CallbackEnv) (s : MessageNet) : Except (NetStop Fault) MessageNet :=
  match s.serve io.sent (APIClient.getHostIndex modid cmdid)
      (fun rl => rl.getHost E modid cmdid env.now env.junk) ⟨.noexist, ⟨.noexist, none⟩, none⟩ with
  | .error f => .error f
  | .ok (s, reply) =>
    s.finish (s.api.getHost modid cmdid io s.outcomes.length (if env.sent then some reply.rsp else none))

def getRoute (modid cmdid : Int32) (io : Io) (env : CallbackEnv) (s : MessageNet) : Except (NetStop Fault) MessageNet :=
  match s.serve io.sent (APIClient.getRouteIndex modid cmdid)
      (fun rl => rl.getRoute E modid cmdid env.now env.junk) ⟨.noexist, [], none⟩ with
  | .error f => .error f
  | .ok (s, reply) =>
    s.finish (s.api.getRoute modid cmdid io s.outcomes.length (if env.sent then some reply.host else none))

def report (modid cmdid : Int32) (ip : List Char) (port retcode : Int32) (junk : UInt32) (sent : Bool)
    (env : CallbackEnv) (s : MessageNet) : Except (NetStop Fault) MessageNet :=
  match s.serve sent (APIClient.reportIndex modid cmdid)
      (fun rl => rl.reportHost E (APIClient.reportRequest inetAton junk modid cmdid ip port retcode)
        env.now env.ts env.commitTime) none with
  | .error f => .error f
  | .ok (s, _) => .ok s

/-- One event, by the messages. -/
def step (s : MessageNet) : NetEvent → Except (NetStop Fault) MessageNet
  | .getHost modid cmdid io env => s.getHost E modid cmdid io env
  | .getRoute modid cmdid io env => s.getRoute E modid cmdid io env
  | .report modid cmdid ip port retcode junk sent env =>
    s.report E inetAton modid cmdid ip port retcode junk sent env
  | .other i op _ =>
    match (s.lbs i).step E op with
    | .error f => .error (.agent f)
    | .ok rl => .ok { s with lbs := Function.update s.lbs i rl }

/-- One try of `reg_init`: its `get_route`, and what happens while it sleeps. -/
structure RegTry where
  io : Io
  env : CallbackEnv
  asleep : List NetEvent

/-- The loop of `reg_init`, with its tries. `route` gets what `get_route` hands out. -/
def regInitLoop (modid cmdid : Int32) : List RegTry → MessageNet → Except (NetStop Fault) (MessageNet × RetCode)
  | [], s => .ok (s, .noexist)
  | t :: tries, s =>
    match s.getRoute E modid cmdid t.io t.env with
    | .error f => .error f
    | .ok s =>
      if (s.outcomes.getLast?.toList.flatMap Outcome.hosts).isEmpty then
        match Runs.run (step E inetAton) s t.asleep with
        | .error f => .error f
        | .ok s => regInitLoop modid cmdid tries s
      else .ok (s, .succ)

/-- `APIClient::reg_init` -/
def regInit (modid cmdid : Int32) (tries : Fin 3 → RegTry) (s : MessageNet) :
    Except (NetStop Fault) (MessageNet × RetCode) :=
  s.regInitLoop E inetAton modid cmdid (List.ofFn tries)

def new : MessageNet := ⟨.new, fun _ => .new, []⟩

end MessageNet

end LbRpc
