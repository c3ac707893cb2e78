import Mathlib.Data.UInt
import LbRpc.Agent.AgentUdpServer
import LbRpc.Api.ApiClient
import LbRpc.Proof.HostRun
import LbRpc.Proof.Packing

/-!
# The way of an address

An address goes from the console's text into a row, from the row into the map of the DNS
service, from there through a response into a host of the agent, and from the agent to the
API, which prints it.

* `hostInfo_value`: what the DNS service makes of a row.
* `Journey`: the API is handed this host for this row.
* `Journey.host`: the agent hands it on as the DNS service sent it.
* `ip_text_iff`: the text comes back exactly for the quads that read the same backwards
  (and ports below 2^31).
-/

namespace LbRpc

open Ipv4

/-! ## From the text to the response -/

/-- The `ip_port` value of a row. -/
def RouteRow.value (r : RouteRow) : UInt64 :=
  (r.serverip.toUInt64 <<< 32) + r.serverport.toInt32.toInt64.toUInt64

/-- The key of a row. -/
def RouteRow.mod (r : RouteRow) : UInt64 := key r.modid.toInt32 r.cmdid.toInt32

theorem insertRow_eq (m : RouteMap) (r : RouteRow) : m.insertRow r = m.insertHost r.mod r.value := rfl

/-- Whether the upper half is sign-extended makes no difference: the sign is shifted out. -/
theorem value_eq_key (r : RouteRow) : r.value = key r.serverip.toInt32 r.serverport.toInt32 := by
  have hz : (r.serverip.toUInt64 <<< 32) = (r.serverip.toInt32.toInt64.toUInt64 <<< 32) := by
    have hs := toUInt64_toNat r.serverip.toInt32.toInt64
    have hi := toInt32_toInt r.serverip
    have h32 : (32 : UInt64).toNat % 64 = 32 := rfl
    rw [Int32.toInt_toInt64] at hs
    apply UInt64.toNat_inj.1
    simp only [UInt64.toNat_shiftLeft, Nat.shiftLeft_eq, h32, UInt32.toNat_toUInt64]
    split at hi <;> omega
  rw [RouteRow.value, hz]
  rfl

/-- What the DNS service makes of a row: a port from 2^31 on borrows from the address. -/
theorem hostInfo_value (r : RouteRow) : hostInfo r.value =
    ⟨if r.serverport < 2 ^ 31 then r.serverip.toInt32 else r.serverip.toInt32 - 1, r.serverport.toInt32⟩ := by
  have hport : 0 ≤ r.serverport.toInt32 ↔ r.serverport < 2 ^ 31 := by
    have h0 : (0 : Int32).toInt = 0 := rfl
    have h31 : (2 ^ 31 : UInt32).toNat = 2 ^ 31 := rfl
    have hp := toInt32_toInt r.serverport
    have hlt := r.serverport.toNat_lt
    rw [Int32.le_iff_toInt_le, h0, hp, UInt32.lt_iff_toNat_lt, h31]
    split <;> omega
  rw [hostInfo, value_eq_key, keyHi_key, keyLo_key]
  simp only [hport]

theorem serveripOf_text (q : Quad) : serveripOf q.text = UInt32.ofNat q.toBig := by
  rw [serveripOf, inetAtoN, parseIpTo4, parse_text]
  rfl

/-! ## Through the agent -/

namespace HostInfo

theorem report_address (E : Env) (now ts : ℤ) (rc : Int32) (hi : HostInfo) :
    (hi.report E now ts rc).1.ip = hi.ip ∧ (hi.report E now ts rc).1.port = hi.port := by
  have hcount : (hi.count rc).ip = hi.ip ∧ (hi.count rc).port = hi.port := by
    unfold count
    split <;> exact ⟨rfl, rfl⟩
  have h := reported E now ts rc hi
  generalize hi.report E now ts rc = r at h ⊢
  obtain ⟨hi', v⟩ := r
  cases h <;> exact hcount

/-- No report changes where a host is. -/
theorem run_address {E : Env} {hi hi' : HostInfo} {rs : List Report}
    (h : Runs.run (HostInfo.step E) hi rs = .ok hi') : hi'.ip = hi.ip ∧ hi'.port = hi.port := by
  refine Runs.run_inv (I := fun t => t.ip = hi.ip ∧ t.port = hi.port) ?_ ⟨rfl, rfl⟩ h
  rintro t r u ⟨hip, hport⟩ hu
  cases hu
  have ha := report_address E r.currentTime r.ts r.retcode t
  exact ⟨ha.1.trans hip, ha.2.trans hport⟩

end HostInfo

namespace LoadBalance

/-- The host at `a` was made for the entry `g` of the response `rsp`, and has been reported
on since. -/
def MadeFor (E : Env) (ops : List Op) (a : Addr) (hi : HostInfo) (rsp : Lbrss.GetRouteResponse)
    (g : Lbrss.HostInfo) : Prop :=
  ∃ pre now junk post rs, g ∈ rsp.host ∧ ops = pre ++ .update now junk rsp :: post ∧
    Runs.run (HostInfo.step E)
      (HostInfo.new g.ip.toUInt32 g.port E.config.initSuccCnt.toUInt32 (junk a)) rs = .ok hi

/-- `get_host` or `get_route` puts the host at `a` into its response as `host`. -/
def Gives (E : Env) (lb : LoadBalance) (a : Addr) (host : Lbrss.HostInfo) : Prop :=
  (∃ lb' p, lb.pickOneHost E = .ok (lb', p) ∧ p.host = some host ∧
    (p.queue = some .idle ∧ lb.idleList.head? = some a ∨
      p.queue = some .overload ∧ lb.overloadList.head? = some a)) ∨
  a ∈ lb.getAllHosts ∧ RouteLB.readHost lb.heap a = .ok host

variable {E : Env} {lb : LoadBalance} {ops : List Op} {a : Addr} {hi : HostInfo}

/-- A host is given out as it stands on the heap. -/
theorem Gives.eq {host : Lbrss.HostInfo} (h : Gives E lb a host) (hr : lb.heap.read a = some hi) :
    host = ⟨hi.ip.toInt32, hi.port⟩ := by
  rcases h with ⟨lb', p, hp, hhost, hq⟩ | ⟨-, h⟩
  · have hpick := picked hp
    cases hpick with
    | overload hl hread _ =>
      rcases hq with ⟨hq, -⟩ | ⟨-, hq⟩
      · cases hq
      · rw [hl] at hq
        cases hq
        rw [hr] at hread
        cases hread
        cases hhost
        rfl
    | reject _ _ => cases hhost
    | idle hl hread _ =>
      rcases hq with ⟨-, hq⟩ | ⟨hq, -⟩
      · rw [hl] at hq
        cases hq
        rw [hr] at hread
        cases hread
        cases hhost
        rfl
      · cases hq
  · rw [RouteLB.readHost, hr] at h
    cases h
    rfl

/-- **The agent hands a host on as it came.** -/
theorem MadeFor.given {rsp : Lbrss.GetRouteResponse} {g host : Lbrss.HostInfo}
    (h : MadeFor E ops a hi rsp g) (hr : lb.heap.read a = some hi) (hg : Gives E lb a host) : host = g := by
  obtain ⟨pre, now, junk, post, rs, -, -, hrun⟩ := h
  obtain ⟨hip, hport⟩ := HostInfo.run_address hrun
  rw [hg.eq hr, hip, hport]
  rfl

end LoadBalance

/-- The DNS service answers from these rows. -/
def FromTable (rows : List RouteRow) (rsp : Lbrss.GetRouteResponse) : Prop :=
  ∃ (route : Route) (hosts : List UInt64), route.data = RouteMap.ofRows rows ∧
    Walks hosts (route.getHosts rsp.modid rsp.cmdid) ∧ rsp = routeResponse rsp.modid rsp.cmdid hosts

/-- **The API is handed this host for this row**: the DNS service has answered from a table
with the row, an agent has made a host for the entry and given it out. -/
def Journey (E : Env) (r : RouteRow) (host : Lbrss.HostInfo) : Prop :=
  ∃ rows rsp modid cmdid accessCnt ops lb a hi,
    r ∈ rows ∧ FromTable rows rsp ∧ r.mod = key rsp.modid rsp.cmdid ∧
    Runs.run (LoadBalance.step E) (LoadBalance.new modid cmdid accessCnt) ops = .ok lb ∧
    lb.heap.read a = some hi ∧ LoadBalance.MadeFor E ops a hi rsp (hostInfo r.value) ∧
    LoadBalance.Gives E lb a host

theorem Journey.host {E : Env} {r : RouteRow} {host : Lbrss.HostInfo} (h : Journey E r host) :
    host = hostInfo r.value := by
  obtain ⟨_, _, _, _, _, _, _, _, _, -, -, -, -, hr, hmade, hg⟩ := h
  exact hmade.given hr hg

/-- The text that the API prints for a row. -/
theorem ip_text (q : Quad) (r : RouteRow) (hip : r.serverip = serveripOf q.text) :
    (ipPort (hostInfo r.value)).1 =
      if r.serverport < 2 ^ 31 then q.reverse.text else (ofLittle (UInt32.ofNat q.toBig - 1)).text := by
  rw [hostInfo_value, hip, serveripOf_text, ipPort, inetNtoa]
  split
  · rw [UInt32.toUInt32_toInt32, ofLittle_toBig]
  · rw [Int32.toUInt32_sub, UInt32.toUInt32_toInt32]
    rfl

/-! ## A journey for every row -/

theorem lookup_ofRows_single (r : RouteRow) :
    AList.lookup r.mod (RouteMap.ofRows [r]) = some {r.value} := by
  show AList.lookup r.mod (RouteMap.insertRow ∅ r) = some {r.value}
  rw [insertRow_eq, RouteMap.insertHost, AList.lookup_insert]
  simp

/-- A response with one host, taken by a new load balancer. -/
theorem update_single (E : Env) (modid cmdid accessCnt : Int32) (junk : Addr → Junk)
    (g : Lbrss.HostInfo) : ∃ lb, Runs.run (LoadBalance.step E) (LoadBalance.new modid cmdid accessCnt)
      [.update 0 junk ⟨modid, cmdid, [g]⟩] = .ok lb ∧ lb.idleList = [0] ∧ lb.overloadList = [] ∧
      lb.heap.read 0 =
        some (HostInfo.new g.ip.toUInt32 g.port E.config.initSuccCnt.toUInt32 (junk 0)) := by
  have hdel : LoadBalance.needDelete ⟨modid, cmdid, [g]⟩
      (LoadBalance.insertHost E junk (LoadBalance.new modid cmdid accessCnt) g) = [] := by
    have hkeys : (LoadBalance.insertHost E junk (LoadBalance.new modid cmdid accessCnt) g).hostMap.keys =
        [key g.ip g.port] := rfl
    rw [LoadBalance.needDelete, hkeys]
    simp [LoadBalance.remoteHosts]
  have hupd : LoadBalance.step E (LoadBalance.new modid cmdid accessCnt)
      (.update 0 junk ⟨modid, cmdid, [g]⟩) =
      .ok { LoadBalance.insertHost E junk (LoadBalance.new modid cmdid accessCnt) g with
        lastUpdateTime := 0, status := .new } := by
    simp only [LoadBalance.step, LoadBalance.update, List.foldl_cons, List.foldl_nil, hdel, Runs.run]
    rfl
  exact ⟨_, Runs.run_cons_ok.2 ⟨_, hupd, rfl⟩, rfl, rfl, rfl⟩

/-- **A row can reach the API.** -/
theorem exists_journey (E : Env) (r : RouteRow) : Journey E r (hostInfo r.value) := by
  obtain ⟨lb, hrun, hidle, hover, hread⟩ := update_single E r.modid.toInt32 r.cmdid.toInt32 0
    (fun _ => ⟨0, 0⟩) (hostInfo r.value)
  refine ⟨[r], routeResponse r.modid.toInt32 r.cmdid.toInt32 [r.value], _, _, _, _, lb, 0, _,
    List.mem_singleton.2 rfl, ?_, rfl, hrun, hread, ?_, ?_⟩
  · refine ⟨⟨fun _ => RouteMap.ofRows [r], .a, .b, 0⟩, [r.value], rfl, ⟨List.nodup_singleton _, ?_⟩, rfl⟩
    show _ = (AList.lookup r.mod (RouteMap.ofRows [r])).getD ∅
    rw [lookup_ofRows_single]
    rfl
  · exact ⟨[], 0, _, [], [], List.mem_singleton.2 rfl, rfl, rfl⟩
  · -- the only host is idle, so a pick serves it
    have hserve : lb.pickOneHost E = lb.serveIdle := by
      rw [LoadBalance.pickOneHost, if_neg (by rw [hidle]; simp), if_neg (by rw [hover]; simp)]
    have hpick : lb.pickOneHost E = .ok ({ lb with accessCnt := lb.accessCnt + 1, idleList := [0] },
        ⟨.succ, some .idle, some (hostInfo r.value)⟩) := by
      rw [hserve, LoadBalance.serveIdle, hidle, LoadBalance.getHostFromList_cons hread]
      rfl
    exact Or.inl ⟨_, _, hpick, rfl, Or.inl ⟨rfl, by rw [hidle]; rfl⟩⟩

/-! ## The whole way -/

/-- **The text comes back exactly for a quad that reads the same backwards, with a port
below 2^31.** -/
theorem ip_text_iff (q : Quad) (serverport : UInt32) :
    (∀ E r host, r.serverip = serveripOf q.text → r.serverport = serverport → Journey E r host →
      (ipPort host).1 = q.text) ↔ (q.a = q.d ∧ q.b = q.c) ∧ serverport < 2 ^ 31 := by
  constructor
  · intro h
    have htext := h Env.shipped ⟨0, 0, 0, serveripOf q.text, serverport⟩ _ rfl rfl (exists_journey _ _)
    rw [ip_text q _ rfl] at htext
    split at htext
    · rename_i hport
      exact ⟨reverse_eq_iff.1 (text_inj htext), hport⟩
    · exact absurd (text_inj htext) (ofLittle_pred_ne q)
  · rintro ⟨hq, hport⟩ E r host hip rfl hj
    rw [hj.host, ip_text q r hip, if_pos hport, reverse_eq_iff.2 hq]

/-- 10.0.0.1 comes back as 1.0.0.10. -/
theorem ip_text_fails : ¬∀ (q : Quad) (serverport : UInt32) (E : Env) (r : RouteRow)
    (host : Lbrss.HostInfo), r.serverip = serveripOf q.text → r.serverport = serverport →
      Journey E r host → (ipPort host).1 = q.text := by
  intro h
  have htext := h ⟨10, 0, 0, 1⟩ 80 Env.shipped ⟨0, 1, 1, serveripOf (Quad.text ⟨10, 0, 0, 1⟩), 80⟩ _ rfl rfl
    (exists_journey _ _)
  rw [ip_text ⟨10, 0, 0, 1⟩ _ rfl, if_pos (by decide)] at htext
  exact absurd (text_inj htext) (by decide)

end LbRpc
