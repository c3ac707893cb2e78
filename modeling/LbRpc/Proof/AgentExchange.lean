import LbRpc.Api.ApiBytes
import LbRpc.Base.Simulation
import LbRpc.Proof.ApiCalls
import LbRpc.Proof.Datagrams
import LbRpc.Proof.RouteLbStep
import LbRpc.Proof.WireMessages

/-!
# The bytes between API and agent carry the messages

* `AgentServer.deal_frame`: a datagram with a request leads to its callback.
* `recvHost_wire`, `recvRoute_wire`: receiving from datagrams is receiving from messages.
* `byte_net_simulates`: over every run the system of bytes and the system of messages come to
  the same results, as long as every list of hosts fits a datagram.
-/

namespace LbRpc

open Lbrss

variable {R : Wire.Runtime} {E : Env}

/-- The datagram of a message. -/
def frameOf (m : Message) : List UInt8 := (MsgHead.ofMessage m).toBytes ++ m.data

theorem apiFrame_eq {msgid : Int32} {size : ℕ} {bytes : List UInt8} (h : bytes.length = size) :
    apiFrame msgid size bytes = frameOf ⟨msgid, bytes⟩ := by
  subst h
  rfl

/-! ## The agent's side -/

theorem agentRouter_find (index msgid : Int32) :
    (agentRouter index).find msgid = MsgRouter.firstOf msgid (agentRegistrations index) :=
  MsgRouter.find_registered _ _

namespace AgentServer

variable {α : Type*} (index : Int32) (src : α) (env : CallbackEnv) (s : AgentServer α)

/-- **A datagram that fits is dispatched**: the server calls back for its message, and answers
where it came from. -/
theorem deal_frame {m : Message} (hfit : m.data.length ≤ 65519) :
    ∃ socket : UdpServer α, socket.clientAddr = src ∧
      s.deal R E index src (frameOf m) env = route R E index m.call env ⟨socket, s.routeLb⟩ := by
  have hlen : (frameOf m).length ≤ udpBufSize := by
    unfold frameOf
    rw [List.length_append, MsgHead.length_toBytes]
    unfold udpBufSize messageHeadLen
    omega
  have hcalls := UdpSocket.deal_calls (s := { s.socket.toUdpSocket with calls := [] }) hlen
  have hcall : UdpSocket.dispatched (frameOf m) = some m.call := UdpSocket.dispatched_frame hfit
  rw [hcall] at hcalls
  refine ⟨{ toUdpSocket := { s.socket.toUdpSocket with calls := [] }.deal (frameOf m), clientAddr := src }, rfl, ?_⟩
  unfold deal
  dsimp only
  rw [hcalls]
  rfl

/-- An answer that the buffer takes leaves if `sendto` succeeds and an IPv4 datagram carries it. -/
theorem answer_room (rl : RouteLB) {reply : AgentReply} (sent : Bool)
    (hfit : (reply.message R).data.length ≤ 65519) :
    ∃ socket : UdpServer α, s.answer R rl reply sent = .ok (⟨socket, rl⟩,
      if (sent && decide (messageHeadLen + (reply.message R).data.length ≤ maxDatagram)) = true then
        some (s.socket.clientAddr, frameOf (reply.message R))
      else none) := by
  obtain ⟨socket, hsend⟩ : ∃ socket, s.socket.toUdpSocket.sendMessage _ (reply.message R).msgid _ = _ :=
    UdpSocket.sendMessage_room (sent && decide (messageHeadLen + (reply.message R).data.length ≤ maxDatagram)) hfit
  refine ⟨{ s.socket with toUdpSocket := socket }, ?_⟩
  unfold answer UdpServer.sendMessage
  dsimp only
  rw [hsend]
  cases (sent && decide (messageHeadLen + (reply.message R).data.length ≤ maxDatagram)) <;> rfl

/-- An answer that an IPv4 datagram carries leaves if `sendto` succeeds. -/
theorem answer_fits (rl : RouteLB) {reply : AgentReply} (sent : Bool)
    (hfit : (reply.message R).data.length ≤ 65499) :
    ∃ socket : UdpServer α, s.answer R rl reply sent = .ok (⟨socket, rl⟩,
      if sent then some (s.socket.clientAddr, frameOf (reply.message R)) else none) := by
  obtain ⟨socket, hans⟩ := answer_room s rl sent (hfit.trans (by decide))
  refine ⟨socket, ?_⟩
  have hcarried : decide (messageHeadLen + (reply.message R).data.length ≤ maxDatagram) = true := by
    rw [decide_eq_true_eq]
    unfold messageHeadLen maxDatagram
    omega
  rw [hans, hcarried, Bool.and_true]

/-- A longer one that the buffer takes does not leave. -/
theorem answer_stays (rl : RouteLB) {reply : AgentReply} (sent : Bool)
    (hlong : sent = false ∨ 65499 < (reply.message R).data.length)
    (hfit : (reply.message R).data.length ≤ 65519) :
    ∃ socket : UdpServer α, s.answer R rl reply sent = .ok (⟨socket, rl⟩, none) := by
  obtain ⟨socket, hans⟩ := answer_room s rl sent hfit
  refine ⟨socket, ?_⟩
  rw [hans, if_neg]
  rw [Bool.and_eq_true, decide_eq_true_eq]
  unfold messageHeadLen maxDatagram
  rintro ⟨hsent, hle⟩
  rcases hlong with h | h
  · rw [hsent] at h
    cases h
  · omega

/-- An answer that only its head makes too long runs over the buffer. -/
theorem answer_overruns {rl : RouteLB} {reply : AgentReply} (sent : Bool)
    (hle : (reply.message R).data.length ≤ 65527) (hlong : 65519 < (reply.message R).data.length) :
    s.answer R rl reply sent = .error (.crash .outOfBounds) := by
  have haccept : UdpSocket.Accepts (reply.message R).data := by
    unfold UdpSocket.Accepts messageLengthLimit
    omega
  unfold answer UdpServer.sendMessage
  dsimp only
  rw [UdpSocket.sendMessage_overrun haccept hlong]

/-- A longer one is refused: nothing leaves. -/
theorem answer_refused {rl : RouteLB} {reply : AgentReply} (sent : Bool)
    (hlong : 65527 < (reply.message R).data.length) : s.answer R rl reply sent = .ok (⟨s.socket, rl⟩, none) := by
  have hrefuse : messageLengthLimit < ((reply.message R).data.length : ℤ) := by
    unfold messageLengthLimit
    omega
  unfold answer UdpServer.sendMessage UdpSocket.sendMessage
  dsimp only
  rw [if_pos hrefuse]
  rfl

/-- A response without a list always fits. -/
theorem length_getHost_message (h : R.Lawful) (seq : UInt32) (modid cmdid : Int32) (rsp : GetHostResponse) :
    ((AgentReply.getHost seq modid cmdid rsp).message R).data.length ≤ 65499 := by
  have hsize := GetHostResponseFields.byteSize_le h (rsp.fields seq modid cmdid)
  have hlen := (GetHostResponseFields.sound h).length_serialize (rsp.fields seq modid cmdid)
  show ((GetHostResponseFields.codec R).serialize (rsp.fields seq modid cmdid)).length ≤ 65499
  omega

theorem length_getRoute_message (h : R.Lawful) (rsp : GetRouteResponse) :
    ((AgentReply.getRoute rsp).message R).data.length = (GetRouteResponse.codec R).byteSize rsp :=
  (GetRouteResponse.sound h).length_serialize rsp

/-- **`get_host` by its datagram.** -/
theorem deal_getHost (h : R.Lawful) (req : GetHostRequest) :
    ∃ socket : UdpServer α, s.deal R E index src
        (frameOf ⟨idGetHostRequest, (GetHostRequest.codec R).serialize req⟩) env =
      match s.routeLb.getHost E req.modid req.cmdid env.now env.junk with
      | .error f => .error (.fault f)
      | .ok (rl, reply) => .ok (⟨socket, rl⟩,
          if env.sent then some (src, frameOf ((AgentReply.getHost req.seq req.modid req.cmdid reply.rsp).message R))
          else none) := by
  have hsize := GetHostRequest.byteSize_le h req
  have hlen := (GetHostRequest.sound h).length_serialize req
  obtain ⟨socket, hsrc, hdeal⟩ := deal_frame (R := R) (E := E) index src env s
    (m := ⟨idGetHostRequest, (GetHostRequest.codec R).serialize req⟩)
    (show ((GetHostRequest.codec R).serialize req).length ≤ 65519 by omega)
  rw [hdeal]
  unfold route
  rw [agentRouter_find]
  show ∃ socket', getHostCb R E ((GetHostRequest.codec R).serialize req) env ⟨socket, s.routeLb⟩ = _
  unfold getHostCb LbRpc.getHostCb
  rw [(GetHostRequest.sound h).round_trip]
  dsimp only
  rcases hgot : s.routeLb.getHost E req.modid req.cmdid env.now env.junk with f | ⟨rl, reply⟩
  · exact ⟨socket, rfl⟩
  · obtain ⟨socket', hans⟩ := answer_fits (R := R) (⟨socket, s.routeLb⟩ : AgentServer α) rl env.sent
      (length_getHost_message h req.seq req.modid req.cmdid reply.rsp)
    refine ⟨socket', ?_⟩
    dsimp only at hans ⊢
    rw [hans, hsrc]

/-- **`get_route` by its datagram**: what is served is handed to `send_message`. -/
theorem deal_getRoute (h : R.Lawful) (req : GetRouteRequest) :
    ∃ socket : UdpServer α, socket.clientAddr = src ∧ s.deal R E index src
        (frameOf ⟨idApiGetRouteRequest, (GetRouteRequest.codec R).serialize req⟩) env =
      match s.routeLb.getRoute E req.modid req.cmdid env.now env.junk with
      | .error f => .error (.fault f)
      | .ok (rl, reply) =>
        (⟨socket, s.routeLb⟩ : AgentServer α).answer R rl (.getRoute ⟨req.modid, req.cmdid, reply.host⟩) env.sent := by
  have hsize := GetRouteRequest.byteSize_le h req
  have hlen := (GetRouteRequest.sound h).length_serialize req
  obtain ⟨socket, hsrc, hdeal⟩ := deal_frame (R := R) (E := E) index src env s
    (m := ⟨idApiGetRouteRequest, (GetRouteRequest.codec R).serialize req⟩)
    (show ((GetRouteRequest.codec R).serialize req).length ≤ 65519 by omega)
  refine ⟨socket, hsrc, ?_⟩
  rw [hdeal]
  unfold route
  rw [agentRouter_find]
  show getRouteCb R E ((GetRouteRequest.codec R).serialize req) env ⟨socket, s.routeLb⟩ = _
  unfold getRouteCb LbRpc.getRouteCb
  rw [(GetRouteRequest.sound h).round_trip]
  dsimp only
  rcases s.routeLb.getRoute E req.modid req.cmdid env.now env.junk with f | ⟨rl, reply⟩ <;> rfl

/-- **`report` by its datagram.** -/
theorem deal_report (h : R.Lawful) (req : ReportRequest) :
    ∃ socket : UdpServer α, s.deal R E index src
        (frameOf ⟨idReportRequest, (ReportRequestFields.codec R).serialize
          ⟨req.modid, req.cmdid, some req.host, req.retcode⟩⟩) env =
      match s.routeLb.reportHost E req env.now env.ts env.commitTime with
      | .error f => .error (.fault f)
      | .ok (rl, _) => .ok (⟨socket, rl⟩, none) := by
  have hsize := ReportRequestFields.byteSize_le h ⟨req.modid, req.cmdid, some req.host, req.retcode⟩
  have hlen := (ReportRequestFields.sound h).length_serialize ⟨req.modid, req.cmdid, some req.host, req.retcode⟩
  obtain ⟨socket, -, hdeal⟩ := deal_frame (R := R) (E := E) index src env s
    (m := ⟨idReportRequest, (ReportRequestFields.codec R).serialize
      ⟨req.modid, req.cmdid, some req.host, req.retcode⟩⟩)
    (show ((ReportRequestFields.codec R).serialize _).length ≤ 65519 by omega)
  refine ⟨socket, ?_⟩
  rw [hdeal]
  unfold route
  rw [agentRouter_find]
  show reportCb R E ((ReportRequestFields.codec R).serialize
    ⟨req.modid, req.cmdid, some req.host, req.retcode⟩) env ⟨socket, s.routeLb⟩ = _
  unfold reportCb
  rw [(ReportRequestFields.sound h).round_trip]
  show (match s.routeLb.reportHost E req env.now env.ts env.commitTime with
    | .error f => (.error (.fault f) : Except AgentStop (AgentServer α × Option (α × List UInt8)))
    | .ok (rl, _) => .ok (⟨socket, rl⟩, none)) = _
  rcases s.routeLb.reportHost E req env.now env.ts env.commitTime with f | ⟨rl, sent⟩ <;> rfl

end AgentServer

/-! ## The API's side -/

/-- A response in its datagram. -/
def wire (R : Wire.Runtime) (x : ℕ × AgentReply) : ℕ × List UInt8 := (x.1, frameOf (x.2.message R))

/-- A response that the agent can send: a success names a host, and a list of hosts fits. -/
def ProperReply (R : Wire.Runtime) : AgentReply → Prop
  | .getHost _ _ _ rsp => rsp.retcode = .succ → rsp.host ≠ none
  | .getRoute rsp => (GetRouteResponse.codec R).byteSize rsp ≤ 65499

theorem ProperReply.fits (h : R.Lawful) {reply : AgentReply} (hp : ProperReply R reply) :
    (reply.message R).data.length ≤ 65499 := by
  cases reply with
  | getHost seq modid cmdid rsp => exact AgentServer.length_getHost_message h seq modid cmdid rsp
  | getRoute rsp =>
    rw [AgentServer.length_getRoute_message h]
    exact hp

/-- The head and the body of a datagram, as the API takes them out of its buffer. -/
theorem read_frame {m : Message} (hfit : m.data.length ≤ 65499) :
    (MsgHead.ofBytes ((frameOf m).take apiBufSize)).msgid = m.msgid ∧
      ((frameOf m).take apiBufSize).drop messageHeadLen = m.data := by
  have hlen : (frameOf m).length ≤ apiBufSize := by
    unfold frameOf
    rw [List.length_append, MsgHead.length_toBytes]
    unfold apiBufSize messageHeadLen
    omega
  have hhead := MsgHead.length_toBytes (MsgHead.ofMessage m)
  rw [List.take_of_length_le hlen]
  constructor
  · -- the head is read off the first eight bytes
    have hread : MsgHead.ofBytes (frameOf m) = MsgHead.ofBytes (MsgHead.ofMessage m).toBytes := rfl
    rw [hread, MsgHead.ofBytes_toBytes]
    rfl
  · unfold frameOf
    rw [← hhead, List.drop_left]

theorem toInt32_eq_zero {r : RetCode} : r.toInt32 = 0 ↔ r = .succ := by
  cases r <;> decide

theorem hostResult_fields {seq : UInt32} {modid cmdid : Int32} {rsp : GetHostResponse} (id : ℕ)
    (hp : ProperReply R (.getHost seq modid cmdid rsp)) :
    ByteNet.hostResult id (rsp.fields seq modid cmdid) = (APIClient.hostOutcome id rsp).result := by
  unfold ByteNet.hostResult APIClient.hostOutcome Outcome.result
  show ApiResult.mk rsp.retcode.toInt32
    (if rsp.retcode.toInt32 = 0 then [ipPort (rsp.host.getD ⟨0, 0⟩)] else []) (some id) = _
  by_cases hret : rsp.retcode = .succ
  · obtain ⟨host, hhost⟩ := Option.ne_none_iff_exists'.1 (hp hret)
    rw [if_pos (toInt32_eq_zero.2 hret), if_pos hret, hhost]
    rfl
  · rw [if_neg (fun h => hret (toInt32_eq_zero.1 h)), if_neg hret]

/-- What a receive from messages leaves, in datagrams. -/
def onWire (R : Wire.Runtime) (r : List (ℕ × AgentReply) × Outcome) : List (ℕ × List UInt8) × ApiResult :=
  (r.1.map (wire R), r.2.result)

/-- **`get_host` receives from datagrams as from messages.** -/
theorem recvHost_wire (h : R.Lawful) (seq : UInt32) (modid cmdid : Int32) (k : Option ℕ)
    (q : List (ℕ × AgentReply)) (hq : ∀ x ∈ q, ProperReply R x.2) :
    ByteNet.recvHost R seq modid cmdid k (q.map (wire R)) =
      (APIClient.recvHost seq modid cmdid k q).map (onWire R) := by
  induction q generalizing k with
  | nil => cases k with
    | none => rfl
    | some n => cases n <;> rfl
  | cons x q ih =>
    obtain ⟨id, reply⟩ := x
    have hx := hq _ List.mem_cons_self
    have hrest := fun k => ih k fun y hy => hq y (List.mem_cons_of_mem _ hy)
    obtain ⟨hid, hbody⟩ := read_frame (hx.fits h)
    by_cases hk : k = some 0
    · subst hk
      rfl
    rw [List.map_cons]
    show ByteNet.recvHost R seq modid cmdid k ((id, frameOf (reply.message R)) :: q.map (wire R)) = _
    rw [ByteNet.recvHost]
    · rw [hid, hbody]
      cases reply with
      | getRoute rsp =>
        have hother : ((AgentReply.getRoute rsp).message R).msgid ≠ idGetHostResponse :=
          show idApiGetRouteResponse ≠ idGetHostResponse by decide
        rw [if_pos hother, APIClient.recvHost]
        · rfl
        · exact hk
      | getHost seq' modid' cmdid' rsp =>
        rw [if_neg (by show ¬ idGetHostResponse ≠ idGetHostResponse; decide)]
        have hparse : (GetHostResponseFields.codec R).parse (GetHostResponseFields.codec R).empty
            ((AgentReply.getHost seq' modid' cmdid' rsp).message R).data = some (rsp.fields seq' modid' cmdid') :=
          (GetHostResponseFields.sound h).round_trip _
        rw [hparse, APIClient.recvHost]
        · show (if seq' < seq then _ else if seq' ≠ seq ∨ modid' ≠ modid ∨ cmdid' ≠ cmdid then _ else _) = _
          rw [hrest, hostResult_fields id hx]
          by_cases hlt : seq' < seq
          · rw [if_pos hlt, if_pos hlt]
          · rw [if_neg hlt, if_neg hlt]
            by_cases hne : seq' ≠ seq ∨ modid' ≠ modid ∨ cmdid' ≠ cmdid
            · rw [if_pos hne, if_pos hne]
              rfl
            · rw [if_neg hne, if_neg hne]
              rfl
        · exact hk
    · exact hk

/-- **So does `get_route`.** -/
theorem recvRoute_wire (h : R.Lawful) (modid cmdid : Int32) (k : Option ℕ)
    (q : List (ℕ × AgentReply)) (hq : ∀ x ∈ q, ProperReply R x.2) :
    ByteNet.recvRoute R modid cmdid k (q.map (wire R)) =
      (APIClient.recvRoute modid cmdid k q).map (onWire R) := by
  cases q with
  | nil => cases k with
    | none => rfl
    | some n => cases n <;> rfl
  | cons x q =>
    obtain ⟨id, reply⟩ := x
    have hx := hq _ List.mem_cons_self
    obtain ⟨hid, hbody⟩ := read_frame (hx.fits h)
    by_cases hk : k = some 0
    · subst hk
      rfl
    rw [List.map_cons]
    show ByteNet.recvRoute R modid cmdid k ((id, frameOf (reply.message R)) :: q.map (wire R)) = _
    rw [ByteNet.recvRoute]
    · rw [hid, hbody]
      cases reply with
      | getHost seq' modid' cmdid' rsp =>
        have hother : ((AgentReply.getHost seq' modid' cmdid' rsp).message R).msgid ≠ idApiGetRouteResponse :=
          show idGetHostResponse ≠ idApiGetRouteResponse by decide
        rw [if_pos hother, APIClient.recvRoute]
        · rfl
        · exact hk
      | getRoute rsp =>
        rw [if_neg (by show ¬ idApiGetRouteResponse ≠ idApiGetRouteResponse; decide)]
        have hparse : (GetRouteResponse.codec R).parse (GetRouteResponse.codec R).empty
            ((AgentReply.getRoute rsp).message R).data = some rsp := (GetRouteResponse.sound h).round_trip rsp
        rw [hparse, APIClient.recvRoute]
        · dsimp only
          by_cases hne : rsp.modid ≠ modid ∨ rsp.cmdid ≠ cmdid
          · rw [if_pos hne, if_pos hne]
            rfl
          · rw [if_neg hne, if_neg hne]
            rfl
        · exact hk
    · exact hk

/-! ## The two systems -/

/-- Failures of the two systems that are the same. -/
inductive SameStop : NetStop AgentStop → NetStop Fault → Prop
  | api (f : ApiFault) : SameStop (.api f) (.api f)
  | agent (f : Fault) : SameStop (.agent (.fault f)) (.agent f)

/-- **The datagrams of the one system carry the messages of the other.** -/
structure Agree (R : Wire.Runtime) (c : ByteNet) (a : MessageNet) : Prop where
  seqid : c.seqid = a.api.seqid
  inbox : ∀ i, c.inbox i = (a.api.inbox i).map (wire R)
  lbs : ∀ i, (c.servers i).routeLb = a.lbs i
  results : c.results = a.outcomes.map Outcome.result
  proper : ∀ i, ∀ x ∈ a.api.inbox i, ProperReply R x.2

/-- The servers may have anything in their buffers when the systems start. -/
theorem agree_new (R : Wire.Runtime) (sockets : Fin 3 → UdpServer ℕ) : Agree R (ByteNet.new sockets) MessageNet.new where
  seqid := rfl
  inbox := fun _ => rfl
  lbs := fun _ => rfl
  results := rfl
  proper := fun _ _ hx => by cases hx

variable {c : ByteNet} {a : MessageNet}

/-- The server that was asked holds what the call left. -/
theorem Agree.setServer (h : Agree R c a) (i : Fin 3) (socket : UdpServer ℕ) (rl : RouteLB) :
    Agree R { c with servers := Function.update c.servers i ⟨socket, rl⟩ }
      { a with lbs := Function.update a.lbs i rl } where
  seqid := h.seqid
  inbox := h.inbox
  lbs := by
    intro j
    dsimp only
    by_cases hj : j = i
    · rw [hj, Function.update_self, Function.update_self]
    · rw [Function.update_of_ne hj, Function.update_of_ne hj]
      exact h.lbs j
  results := h.results
  proper := h.proper

/-- What is left on a socket, and the result. -/
theorem Agree.received (h : Agree R c a) (i : Fin 3) {q : List (ℕ × AgentReply)} {o : Outcome}
    (hq : ∀ x ∈ q, ProperReply R x.2) :
    Agree R { c with inbox := Function.update c.inbox i (q.map (wire R)), results := c.results ++ [o.result] }
      { a with
        api := { a.api with inbox := Function.update a.api.inbox i q }
        outcomes := a.outcomes ++ [o] } where
  seqid := h.seqid
  inbox := by
    intro j
    dsimp only
    by_cases hj : j = i
    · rw [hj, Function.update_self, Function.update_self]
    · rw [Function.update_of_ne hj, Function.update_of_ne hj]
      exact h.inbox j
  lbs := h.lbs
  results := by
    dsimp only
    rw [h.results, List.map_append, List.map_singleton]
  proper := by
    intro j x hx
    dsimp only at hx
    by_cases hj : j = i
    · rw [hj, Function.update_self] at hx
      exact hq x hx
    · rw [Function.update_of_ne hj] at hx
      exact h.proper j x hx

/-- What the agent's part of an exchange is to be: the bytes of the request lead to `call`, and
its reply comes back if it is sent. -/
structure Served {γ : Type} (R : Wire.Runtime) (E : Env) (env : CallbackEnv) (rl : RouteLB) (frame : List UInt8)
    (call : RouteLB → Except Fault (RouteLB × γ)) (reply : γ → AgentReply) : Prop where
  deal : ∀ (i : Fin 3) (s : AgentServer ℕ), s.routeLb = rl → ∃ socket : UdpServer ℕ,
    s.deal R E (Int32.ofNat i) i.val frame env =
      match call rl with
      | .error f => .error (.fault f)
      | .ok (rl, g) =>
        .ok (⟨socket, rl⟩, if env.sent then some (i.val, frameOf ((reply g).message R)) else none)
  proper : ∀ rl' g, call rl = .ok (rl', g) → ProperReply R (reply g)

/-- An exchange by messages: the agent's part, then the API's. -/
def MessageNet.exchange {γ : Type} (index : Int32) (io : Io) (answered : Bool)
    (call : RouteLB → Except Fault (RouteLB × γ)) (unsent : γ) (reply : γ → AgentReply)
    (recv : Option ℕ → List (ℕ × AgentReply) → Option (List (ℕ × AgentReply) × Outcome)) (a : MessageNet) :
    Except (NetStop Fault) MessageNet :=
  match a.serve io.sent index call unsent with
  | .error f => .error f
  | .ok (a, g) =>
    a.finish (a.api.exchange index io a.outcomes.length (if answered then some (reply g) else none) recv)

/-- **An exchange by bytes is the exchange by messages.** -/
theorem Agree.exchange {γ : Type} (h : Agree R c a) {index : Int32} {io : Io} {env : CallbackEnv} {frame : List UInt8}
    {call : RouteLB → Except Fault (RouteLB × γ)} (unsent : γ) {reply : γ → AgentReply}
    {recvB : Option ℕ → List (ℕ × List UInt8) → Option (List (ℕ × List UInt8) × ApiResult)}
    {recvA : Option ℕ → List (ℕ × AgentReply) → Option (List (ℕ × AgentReply) × Outcome)}
    (hserved : ∀ i, io.sent = true → APIClient.sockfd index = some i → Served R E env (a.lbs i) frame call reply)
    (hrecv : ∀ k q, (∀ x ∈ q, ProperReply R x.2) → recvB k (q.map (wire R)) = (recvA k q).map (onWire R))
    (hsuffix : ∀ k q r o, recvA k q = some (r, o) → r <:+ q) :
    Runs.Matches (Agree R) SameStop (c.exchange R E index io frame env recvB)
      (a.exchange index io env.sent call unsent reply recvA) := by
  have hlen : c.results.length = a.outcomes.length := by rw [h.results, List.length_map]
  unfold ByteNet.exchange MessageNet.exchange MessageNet.serve
  rcases hi : APIClient.sockfd index with _ | i
  · exact .error (.api _)
  dsimp only
  by_cases hsent : io.sent = false
  · rw [if_pos hsent, if_pos hsent]
    unfold MessageNet.finish APIClient.exchange
    dsimp only
    rw [hi]
    dsimp only
    rw [if_pos hsent]
    refine .ok ⟨h.seqid, h.inbox, h.lbs, ?_, h.proper⟩
    dsimp only
    rw [h.results, List.map_append, List.map_singleton]
    rfl
  · rw [if_neg hsent, if_neg hsent]
    obtain ⟨hdeal, hproper⟩ := hserved i (by simpa using hsent) hi
    obtain ⟨socket, hdeal⟩ := hdeal i (c.servers i) (h.lbs i)
    unfold ByteNet.ask
    rw [hdeal]
    rcases hcall : call (a.lbs i) with f | ⟨rl, g⟩
    · exact .error (.agent f)
    · have hreply := hproper rl g hcall
      -- what comes back, by its message
      set back : List (ℕ × AgentReply) := (if env.sent then some (reply g) else none).toList.map
        fun reply => (a.outcomes.length, reply) with hback
      have hall : ∀ x ∈ a.api.inbox i ++ back, ProperReply R x.2 := by
        intro x hx
        rcases List.mem_append.1 hx with hx | hx
        · exact h.proper i x hx
        · cases hs : env.sent with
          | false => simp [hback, hs] at hx
          | true =>
            rw [hback, hs, if_pos rfl, Option.toList_some, List.map_singleton, List.mem_singleton] at hx
            rw [hx]
            exact hreply
      have hfilter : ((if env.sent then some (i.val, frameOf ((reply g).message R)) else none).toList.filter
          (·.1 = i.val)).map (fun r => (c.results.length, r.2)) = back.map (wire R) := by
        rw [hback, hlen]
        cases env.sent with
        | false => rfl
        | true =>
          rw [if_pos rfl, if_pos rfl, Option.toList_some, List.filter_cons_of_pos (by simp), List.filter_nil]
          rfl
      have hin : c.inbox i ++ back.map (wire R) = (a.api.inbox i ++ back).map (wire R) := by
        rw [List.map_append, h.inbox]
      unfold MessageNet.finish APIClient.exchange
      dsimp only
      rw [hi, hfilter, Function.update_self, hin, hrecv _ _ hall]
      dsimp only
      rw [if_neg hsent]
      rcases hr : recvA io.interrupted (a.api.inbox i ++ back) with _ | ⟨q, o⟩
      · exact .error (.api _)
      · have hq : ∀ x ∈ q, ProperReply R x.2 := fun x hx => hall x ((hsuffix _ _ _ _ hr).subset hx)
        have hagree := (h.setServer i socket rl).received i (o := o) hq
        have htwice : Function.update (Function.update c.inbox i ((a.api.inbox i ++ back).map (wire R))) i
            (q.map (wire R)) = Function.update c.inbox i (q.map (wire R)) := Function.update_idem _ _ _
        rw [Option.map_some]
        unfold onWire
        dsimp only
        rw [htwice]
        exact .ok hagree

/-! ## Calls -/

/-- A success of `get_host` names a host. -/
theorem getHost_names_host {rl rl' : RouteLB} {modid cmdid : Int32} {now : ℤ} {junk : Int32} {reply : HostReply}
    (h : rl.getHost E modid cmdid now junk = .ok (rl', reply)) (hret : reply.rsp.retcode = .succ) :
    reply.rsp.host ≠ none := by
  have hgot := RouteLB.gotHost (E := E) modid cmdid now junk rl
  rw [h] at hgot
  cases hgot with
  | unknown _ => cases hret
  | waiting _ _ _ => cases hret
  | picked _ _ hp =>
    have hpicked := LoadBalance.picked hp
    cases hpicked with
    | overload _ _ _ => exact Option.some_ne_none _
    | reject _ _ => cases hret
    | idle _ _ _ => exact Option.some_ne_none _

theorem served_getHost (h : R.Lawful) (seq : UInt32) (modid cmdid : Int32) (env : CallbackEnv) (rl : RouteLB) :
    Served R E env rl
      (apiFrame idGetHostRequest ((GetHostRequest.codec R).byteSize ⟨seq, modid, cmdid⟩)
        ((GetHostRequest.codec R).serialize ⟨seq, modid, cmdid⟩))
      (fun rl => rl.getHost E modid cmdid env.now env.junk)
      (fun reply => .getHost seq modid cmdid reply.rsp) where
  deal := by
    intro i s hs
    obtain ⟨socket, hdeal⟩ := AgentServer.deal_getHost (E := E) (Int32.ofNat i) i.val env s h ⟨seq, modid, cmdid⟩
    rw [apiFrame_eq ((GetHostRequest.sound h).length_serialize _), hdeal, hs]
    refine ⟨socket, ?_⟩
    dsimp only
    rcases rl.getHost E modid cmdid env.now env.junk with f | ⟨rl', reply⟩ <;> rfl
  proper := fun _ _ hcall hret => getHost_names_host hcall hret

theorem served_getRoute (h : R.Lawful) (modid cmdid : Int32) (env : CallbackEnv) (rl : RouteLB)
    (hfit : ∀ rl' reply, rl.getRoute E modid cmdid env.now env.junk = .ok (rl', reply) →
      (GetRouteResponse.codec R).byteSize ⟨modid, cmdid, reply.host⟩ ≤ 65499) :
    Served R E env rl
      (apiFrame idApiGetRouteRequest ((GetRouteRequest.codec R).byteSize ⟨modid, cmdid⟩)
        ((GetRouteRequest.codec R).serialize ⟨modid, cmdid⟩))
      (fun rl => rl.getRoute E modid cmdid env.now env.junk)
      (fun reply => .getRoute ⟨modid, cmdid, reply.host⟩) where
  deal := by
    intro i s hs
    obtain ⟨socket, hsrc, hdeal⟩ := AgentServer.deal_getRoute (E := E) (Int32.ofNat i) i.val env s h ⟨modid, cmdid⟩
    rw [apiFrame_eq ((GetRouteRequest.sound h).length_serialize _), hdeal, hs]
    dsimp only
    rcases hcall : rl.getRoute E modid cmdid env.now env.junk with f | ⟨rl', reply⟩
    · exact ⟨socket, rfl⟩
    · have hlen : ((AgentReply.getRoute ⟨modid, cmdid, reply.host⟩).message R).data.length ≤ 65499 := by
        rw [AgentServer.length_getRoute_message h]
        exact hfit rl' reply hcall
      obtain ⟨socket', hans⟩ := AgentServer.answer_fits (⟨socket, rl⟩ : AgentServer ℕ) rl' env.sent hlen
      refine ⟨socket', ?_⟩
      dsimp only at hans ⊢
      rw [hans, hsrc]
  proper := fun rl' reply hcall => hfit rl' reply hcall

/-- The sequence number is taken before the agent is asked. -/
theorem MessageNet.getHost_eq (modid cmdid : Int32) (io : Io) (env : CallbackEnv) (a : MessageNet) :
    a.getHost E modid cmdid io env =
      ({ a with api := { a.api with seqid := a.api.seqid + 1 } } : MessageNet).exchange
        (APIClient.getHostIndex modid cmdid) io env.sent (fun rl => rl.getHost E modid cmdid env.now env.junk)
        ⟨.noexist, ⟨.noexist, none⟩, none⟩ (fun reply => .getHost a.api.seqid modid cmdid reply.rsp)
        (APIClient.recvHost a.api.seqid modid cmdid) := by
  unfold MessageNet.getHost MessageNet.exchange MessageNet.serve
  rcases APIClient.sockfd (APIClient.getHostIndex modid cmdid) with _ | i
  · rfl
  dsimp only
  by_cases hsent : io.sent = false
  · rw [if_pos hsent, if_pos hsent]
    cases env.sent <;> rfl
  · rw [if_neg hsent, if_neg hsent]
    rcases (a.lbs i).getHost E modid cmdid env.now env.junk with f | ⟨rl, reply⟩
    · rfl
    · cases env.sent <;> rfl

theorem MessageNet.getRoute_eq (modid cmdid : Int32) (io : Io) (env : CallbackEnv) (a : MessageNet) :
    a.getRoute E modid cmdid io env =
      a.exchange (APIClient.getRouteIndex modid cmdid) io env.sent
        (fun rl => rl.getRoute E modid cmdid env.now env.junk) ⟨.noexist, [], none⟩ (fun reply => .getRoute ⟨modid, cmdid, reply.host⟩)
        (APIClient.recvRoute modid cmdid) := by
  unfold MessageNet.getRoute MessageNet.exchange
  rcases a.serve io.sent (APIClient.getRouteIndex modid cmdid)
    (fun rl => rl.getRoute E modid cmdid env.now env.junk) ⟨.noexist, [], none⟩ with f | ⟨b, reply⟩
  · rfl
  · cases env.sent <;> rfl

/-- The list of hosts of a `get_route` fits a datagram. -/
def RouteFits (R : Wire.Runtime) (E : Env) (a : MessageNet) : NetEvent → Prop
  | .getRoute modid cmdid io env => io.sent = true →
    ∀ i, APIClient.sockfd (APIClient.getRouteIndex modid cmdid) = some i →
    ∀ rl reply, (a.lbs i).getRoute E modid cmdid env.now env.junk = .ok (rl, reply) →
      (GetRouteResponse.codec R).byteSize ⟨modid, cmdid, reply.host⟩ ≤ 65499
  | _ => True

/-- The same, as a test. -/
def routeFits (R : Wire.Runtime) (E : Env) (a : MessageNet) : NetEvent → Bool
  | .getRoute modid cmdid _ env =>
    match APIClient.sockfd (APIClient.getRouteIndex modid cmdid) with
    | none => true
    | some i =>
      match (a.lbs i).getRoute E modid cmdid env.now env.junk with
      | .error _ => true
      | .ok (_, reply) => (GetRouteResponse.codec R).byteSize ⟨modid, cmdid, reply.host⟩ ≤ 65499
  | _ => true

theorem RouteFits.of_test {e : NetEvent} (h : routeFits R E a e = true) : RouteFits R E a e := by
  cases e with
  | getRoute modid cmdid io env =>
    intro _ i hi rl reply hserve
    unfold routeFits at h
    dsimp only at h
    rw [hi] at h
    dsimp only at h
    rw [hserve] at h
    exact of_decide_eq_true h
  | getHost _ _ _ _ => trivial
  | report _ _ _ _ _ _ _ _ => trivial
  | other _ _ _ => trivial

variable {inetAton : List Char → Option UInt32}

theorem agree_getHost (h : R.Lawful) (hagree : Agree R c a) (modid cmdid : Int32) (io : Io) (env : CallbackEnv) :
    Runs.Matches (Agree R) SameStop (c.getHost R E modid cmdid io env) (a.getHost E modid cmdid io env) := by
  have hnext : Agree R { c with seqid := c.seqid + 1 }
      { a with api := { a.api with seqid := c.seqid + 1 } } :=
    ⟨rfl, hagree.inbox, hagree.lbs, hagree.results, hagree.proper⟩
  have hserved : ∀ i, io.sent = true → APIClient.sockfd (APIClient.getHostIndex modid cmdid) = some i →
      Served R E env (a.lbs i) _ _ _ := fun i _ _ => served_getHost h c.seqid modid cmdid env (a.lbs i)
  rw [MessageNet.getHost_eq, ← hagree.seqid]
  unfold ByteNet.getHost
  exact hnext.exchange _ hserved (recvHost_wire h c.seqid modid cmdid)
    (fun k q r o hr => (APIClient.recvHost_cases hr).1)

theorem agree_getRoute (h : R.Lawful) (hagree : Agree R c a) (modid cmdid : Int32) (io : Io) (env : CallbackEnv)
    (hfit : RouteFits R E a (.getRoute modid cmdid io env)) :
    Runs.Matches (Agree R) SameStop (c.getRoute R E modid cmdid io env) (a.getRoute E modid cmdid io env) := by
  have hserved : ∀ i, io.sent = true → APIClient.sockfd (APIClient.getRouteIndex modid cmdid) = some i →
      Served R E env (a.lbs i) _ _ _ := fun i hsent hi => served_getRoute h modid cmdid env (a.lbs i) (hfit hsent i hi)
  rw [MessageNet.getRoute_eq]
  unfold ByteNet.getRoute
  exact hagree.exchange ⟨.noexist, [], none⟩ hserved (recvRoute_wire h modid cmdid)
    (fun k q r o hr => (APIClient.recvRoute_cases hr).1)

theorem agree_report (h : R.Lawful) (hagree : Agree R c a) (modid cmdid : Int32) (ip : List Char)
    (port retcode : Int32) (junk : UInt32) (sent : Bool) (env : CallbackEnv) :
    Runs.Matches (Agree R) SameStop (c.report R E inetAton modid cmdid ip port retcode junk sent env)
      (a.report E inetAton modid cmdid ip port retcode junk sent env) := by
  unfold ByteNet.report MessageNet.report MessageNet.serve APIClient.report
  rcases APIClient.sockfd (APIClient.reportIndex modid cmdid) with _ | i
  · exact .error (.api _)
  dsimp only
  by_cases hsent : sent = false
  · rw [if_pos hsent, if_pos hsent]
    exact .ok hagree
  · obtain ⟨socket, hdeal⟩ := AgentServer.deal_report (E := E) (Int32.ofNat i) i.val env (c.servers i) h (APIClient.reportRequest inetAton junk modid cmdid ip port retcode)
    rw [if_neg hsent, if_neg hsent, apiFrame_eq ((ReportRequestFields.sound h).length_serialize _)]
    unfold ByteNet.ask
    rw [hdeal, hagree.lbs i]
    rcases (a.lbs i).reportHost E (APIClient.reportRequest inetAton junk modid cmdid ip port retcode)
      env.now env.ts env.commitTime with f | ⟨rl, r⟩
    · exact .error (.agent f)
    · have hset := hagree.setServer i socket rl
      have hsame : Function.update c.inbox i (c.inbox i ++ ([] : List (ℕ × List UInt8))) = c.inbox := by
        rw [List.append_nil, Function.update_eq_self]
      dsimp only
      rw [Option.toList_none, List.filter_nil, List.map_nil, hsame]
      exact .ok hset

/-- **One event of the two systems.** -/
theorem agree_step (h : R.Lawful) : Runs.Simulates (ByteNet.step R E inetAton) (MessageNet.step E inetAton) (Agree R)
    SameStop (RouteFits R E) := by
  intro c a e hagree hfit
  cases e with
  | getHost modid cmdid io env => exact agree_getHost h hagree modid cmdid io env
  | getRoute modid cmdid io env => exact agree_getRoute h hagree modid cmdid io env hfit
  | report modid cmdid ip port retcode junk sent env =>
    exact agree_report h hagree modid cmdid ip port retcode junk sent env
  | other i op socket =>
    unfold ByteNet.step MessageNet.step
    dsimp only
    rw [hagree.lbs i]
    rcases (a.lbs i).step E op with f | rl
    · exact .error (.agent f)
    · exact .ok (hagree.setServer i socket rl)

/-- **Over every run, API and agent do by their datagrams what they do by their messages**:
the calls return the same, the balancers end up the same, and a run that fails fails in the
same way, as long as every list of hosts fits a datagram. -/
theorem byte_net_simulates (h : R.Lawful) (E : Env) (inetAton : List Char → Option UInt32)
    (sockets : Fin 3 → UdpServer ℕ) (es : List NetEvent)
    (hfit : Runs.Along (MessageNet.step E inetAton) (fun _ a e => RouteFits R E a e) MessageNet.new es) :
    Runs.Matches (Agree R) SameStop (Runs.run (ByteNet.step R E inetAton) (ByteNet.new sockets) es)
      (Runs.run (MessageNet.step E inetAton) MessageNet.new es) :=
  (agree_step h).run (agree_new R sockets) hfit

/-- A route that is not known yet, its update, and two calls that get it. -/
theorem byte_net_simulates_update :
    let env : CallbackEnv := ⟨0, 0, 0, 0, true⟩
    let es : List NetEvent := [.getRoute 1 1 ⟨true, none⟩ env,
      .other 2 (.updateHost 1 1 0 (fun _ => ⟨0, 0⟩) ⟨1, 1, [⟨16777343, 80⟩, ⟨16777343, 81⟩]⟩)
        ⟨⟨fun _ => 0, fun _ => 0, []⟩, 7⟩,
      .getRoute 1 1 ⟨true, none⟩ env, .getHost 1 1 ⟨true, none⟩ env]
    Runs.Matches (Agree Varint.base128) SameStop
      (Runs.run (ByteNet.step Varint.base128 .shipped fun _ => none)
        (ByteNet.new fun _ => ⟨⟨fun _ => 0, fun _ => 0, []⟩, 0⟩) es)
      (Runs.run (MessageNet.step .shipped fun _ => none) MessageNet.new es) :=
  byte_net_simulates Varint.base128_lawful .shipped (fun _ => none) _ _
    (Runs.along_of_check (c := routeFits Varint.base128 .shipped) (by decide) fun _ _ _ => RouteFits.of_test)

/-! ## Lists of hosts -/

/-- The datagram of a `get_route` request. -/
def routeFrame (R : Wire.Runtime) (modid cmdid : Int32) : List UInt8 :=
  frameOf ⟨idApiGetRouteRequest, (GetRouteRequest.codec R).serialize ⟨modid, cmdid⟩⟩

section GetRoute

variable {modid cmdid : Int32} {env : CallbackEnv} {i : Fin 3} {s : AgentServer ℕ}

/-- What a `get_route` whose request is sent comes to. -/
theorem getRoute_sent (h : R.Lawful) (hi : APIClient.sockfd (APIClient.getRouteIndex modid cmdid) = some i) :
    c.getRoute R E modid cmdid ⟨true, none⟩ env =
      match c.ask R E i (routeFrame R modid cmdid) env with
      | .error f => .error f
      | .ok d =>
        match ByteNet.recvRoute R modid cmdid none (d.inbox i) with
        | none => .error (.api .blocked)
        | some (q, r) => .ok { d with inbox := Function.update d.inbox i q, results := d.results ++ [r] } := by
  unfold ByteNet.getRoute ByteNet.exchange
  rw [hi]
  dsimp only
  rw [if_neg (by decide : ¬ true = false), apiFrame_eq ((GetRouteRequest.sound h).length_serialize _)]
  rfl

/-- **Without an answer `get_route` waits**, if nothing is left on its socket. -/
theorem getRoute_waits (h : R.Lawful) (hi : APIClient.sockfd (APIClient.getRouteIndex modid cmdid) = some i)
    (hempty : c.inbox i = [])
    (hdeal : (c.servers i).deal R E (Int32.ofNat i) i.val (routeFrame R modid cmdid) env = .ok (s, none)) :
    c.getRoute R E modid cmdid ⟨true, none⟩ env = .error (.api .blocked) := by
  rw [getRoute_sent h hi]
  unfold ByteNet.ask
  rw [hdeal]
  dsimp only
  rw [Option.toList_none, List.filter_nil, List.map_nil, Function.update_self, hempty, List.append_nil]
  rfl

/-- **An answer that has left is taken.** -/
theorem getRoute_arrives (h : R.Lawful) (hi : APIClient.sockfd (APIClient.getRouteIndex modid cmdid) = some i)
    (hempty : c.inbox i = []) {hosts : List Lbrss.HostInfo}
    (hfit : (GetRouteResponse.codec R).byteSize ⟨modid, cmdid, hosts⟩ ≤ 65499)
    (hdeal : (c.servers i).deal R E (Int32.ofNat i) i.val (routeFrame R modid cmdid) env =
      .ok (s, some (i.val, frameOf ((AgentReply.getRoute ⟨modid, cmdid, hosts⟩).message R)))) :
    c.getRoute R E modid cmdid ⟨true, none⟩ env = .ok { c with
      servers := Function.update c.servers i s
      results := c.results ++ [⟨0, hosts.map ipPort, some c.results.length⟩] } := by
  set answer : ℕ × AgentReply := (c.results.length, .getRoute ⟨modid, cmdid, hosts⟩) with hanswer
  have hproper : ∀ x ∈ [answer], ProperReply R x.2 := by
    intro x hx
    rw [List.mem_singleton.1 hx]
    exact hfit
  have hfilter : ((some (i.val, frameOf ((AgentReply.getRoute ⟨modid, cmdid, hosts⟩).message R))).toList.filter
      (·.1 = i.val)).map (fun r => (c.results.length, r.2)) = [answer].map (wire R) := by
    rw [Option.toList_some, List.filter_cons_of_pos (by simp), List.filter_nil]
    rfl
  -- the answer comes to the socket, and is taken from it
  have hsame : Function.update (Function.update c.inbox i ([answer].map (wire R))) i [] = c.inbox := by
    rw [Function.update_idem, ← hempty, Function.update_eq_self]
  rw [getRoute_sent h hi]
  unfold ByteNet.ask
  rw [hdeal]
  dsimp only
  rw [hfilter, Function.update_self, hempty, List.nil_append, recvRoute_wire h modid cmdid none _ hproper, hanswer,
    APIClient.recvRoute_accept (by simp), ← hanswer, Option.map_some]
  unfold onWire
  dsimp only
  rw [List.map_nil, hsame]
  rfl

/-- **How `get_route` ends depends on the size of its list** and on the agent's `sendto`: on an
empty socket it returns the hosts, or waits for an answer that has not left, or the agent's server
runs over its buffer. A route of up to 2728 hosts is answered if `sendto` succeeds, one of 32750
hosts or more never. -/
theorem getRoute_by_size (h : R.Lawful) (c : ByteNet) (modid cmdid : Int32) (env : CallbackEnv) (i : Fin 3)
    (rl : RouteLB) (reply : RouteReply) (hi : APIClient.sockfd (APIClient.getRouteIndex modid cmdid) = some i)
    (hempty : c.inbox i = [])
    (hserve : (c.servers i).routeLb.getRoute E modid cmdid env.now env.junk = .ok (rl, reply)) :
    let size := (GetRouteResponse.codec R).byteSize ⟨modid, cmdid, reply.host⟩
    (env.sent = true → size ≤ 65499 → ∃ socket, c.getRoute R E modid cmdid ⟨true, none⟩ env = .ok { c with
        servers := Function.update c.servers i ⟨socket, rl⟩
        results := c.results ++ [⟨0, reply.host.map ipPort, some c.results.length⟩] }) ∧
      (env.sent = false ∨ 65499 < size → size ≤ 65519 →
        c.getRoute R E modid cmdid ⟨true, none⟩ env = .error (.api .blocked)) ∧
      (65519 < size → size ≤ 65527 →
        c.getRoute R E modid cmdid ⟨true, none⟩ env = .error (.agent (.crash .outOfBounds))) ∧
      (65527 < size → c.getRoute R E modid cmdid ⟨true, none⟩ env = .error (.api .blocked)) ∧
      (reply.host.length ≤ 2728 → size ≤ 65499) ∧ (32750 ≤ reply.host.length → 65499 < size) := by
  intro size
  have hlen : ((AgentReply.getRoute ⟨modid, cmdid, reply.host⟩).message R).data.length = size :=
    AgentServer.length_getRoute_message h _
  obtain ⟨hlow, hhigh⟩ := GetRouteResponse.byteSize_hosts h modid cmdid reply.host
  obtain ⟨socket, hsrc, hdeal⟩ := AgentServer.deal_getRoute (E := E) (Int32.ofNat i) i.val env (c.servers i) h ⟨modid, cmdid⟩
  rw [hserve] at hdeal
  dsimp only at hdeal
  refine ⟨fun hsent hfit => ?_, fun hstays hfit => ?_, fun hlong hle => ?_, fun hlong => ?_, fun hfew => ?_,
    fun hmany => ?_⟩
  · obtain ⟨socket', hans⟩ := AgentServer.answer_fits (⟨socket, (c.servers i).routeLb⟩ : AgentServer ℕ) rl env.sent
      (show ((AgentReply.getRoute ⟨modid, cmdid, reply.host⟩).message R).data.length ≤ 65499 from hlen ▸ hfit)
    rw [hans, if_pos hsent] at hdeal
    dsimp only at hdeal
    rw [hsrc] at hdeal
    exact ⟨socket', getRoute_arrives h hi hempty hfit hdeal⟩
  · obtain ⟨socket', hans⟩ := AgentServer.answer_stays (⟨socket, (c.servers i).routeLb⟩ : AgentServer ℕ) rl env.sent
      (show env.sent = false ∨
        65499 < ((AgentReply.getRoute ⟨modid, cmdid, reply.host⟩).message R).data.length from hlen ▸ hstays)
      (hlen ▸ hfit)
    exact getRoute_waits h hi hempty (hdeal.trans hans)
  · rw [AgentServer.answer_overruns _ _ (hlen ▸ hle) (hlen ▸ hlong)] at hdeal
    rw [getRoute_sent h hi]
    unfold ByteNet.ask
    rw [show (c.servers i).deal R E (Int32.ofNat i) i.val (routeFrame R modid cmdid) env =
      .error (.crash .outOfBounds) from hdeal]
  · rw [AgentServer.answer_refused _ _ (hlen ▸ hlong)] at hdeal
    exact getRoute_waits h hi hempty hdeal
  · omega
  · omega

end GetRoute

/-- A route that is not known yet, in the first call of all: it is answered, without hosts. -/
theorem getRoute_by_size_new :
    let env : CallbackEnv := ⟨0, 0, 0, 0, true⟩
    let c := ByteNet.new fun _ => ⟨⟨fun _ => 0, fun _ => 0, []⟩, 0⟩
    ∃ socket rl, c.getRoute Varint.base128 .shipped 1 1 ⟨true, none⟩ env = .ok { c with
      servers := Function.update c.servers 2 ⟨socket, rl⟩
      results := [⟨0, [], some 0⟩] } := by
  intro env c
  obtain ⟨hfits, -, -, -, hfew, -⟩ := getRoute_by_size (E := .shipped) Varint.base128_lawful c 1 1 env 2 _ _
    (by decide) rfl rfl
  obtain ⟨socket, hgot⟩ := hfits rfl (hfew (by decide))
  exact ⟨socket, _, hgot⟩

end LbRpc
