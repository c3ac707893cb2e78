import LbRpc.Proof.Address
import LbRpc.Proof.RouteLbStep
import LbRpc.Proof.Updates

/-!
# A report finds the host that was handed out

The API makes a text of the ip of a host and takes it back from that text. The agent finds the
host under a key that it makes of the ip and the port in the report.

* `Found`: every listed host is in the map, under the key of its own ip and port. Each call of a
  load balancer keeps this.
* `report_finds_host`: a report with the ip and the port that `get_host` gave is about the
  host that was served.
-/

namespace LbRpc

namespace LoadBalance

variable {E : Env} {lb lb' : LoadBalance}

/-- The hosts of the lists are in the map, and the map is keyed by their ip and port. -/
structure Found (lb : LoadBalance) : Prop where
  keyed : lb.Keyed
  /-- the map has no address that a new host could get -/
  used : ∀ k a, lb.hostMap.lookup k = some a → a < lb.heap.next
  listed : lb.AllListed

theorem found_new (modid cmdid accessCnt : Int32) : (new modid cmdid accessCnt).Found := by
  have hmap : ∀ k, (new modid cmdid accessCnt).hostMap.lookup k = none := fun k => AList.lookup_empty k
  refine ⟨fun k a hi hk => ?_, fun k a hk => ?_, fun a ha => ?_⟩
  · rw [hmap] at hk
    cases hk
  · rw [hmap] at hk
    cases hk
  · simp [new] at ha

theorem Found.pick (h : lb.Found) {p : Picked} (hp : PickedBy E lb lb' p) : lb'.Found := by
  obtain ⟨hm, hh, -, hidle, hover⟩ := hp.frame
  refine ⟨?_, ?_, fun a ha => ?_⟩
  · intro k a hi hk hr
    rw [hm] at hk
    rw [hh] at hr
    exact h.keyed k a hi hk hr
  · intro k a hk
    rw [hm] at hk
    rw [hh]
    exact h.used k a hk
  · rw [hm]
    exact h.listed a ((hidle.append hover).mem_iff.1 ha)

/-- A report changes neither the map nor where a host is. -/
theorem Found.report (h : lb.Found) {now ts : ℤ} {ip port rc : Int32} {v : Option HostInfo.Verdict}
    (hr : lb.report E now ts ip port rc = .ok (lb', v)) : lb'.Found := by
  have hm := report_hostMap hr
  refine ⟨?_, ?_, listed_report h.listed hr⟩
  · intro k b hi' hk hb
    rw [hm] at hk
    rcases report_cases hr with ⟨-, rfl, -⟩ | ⟨a, hi, -, hread, rfl, -⟩
    · exact h.keyed k b hi' hk hb
    · rw [requeue_heap] at hb
      rcases Heap.read_modify_known hread hb with ⟨rfl, rfl⟩ | hb
      · -- the reported host itself
        have hkey := h.keyed k b hi hk hread
        obtain ⟨hip, hport⟩ := HostInfo.report_address E now ts rc hi
        unfold endpoint at hkey ⊢
        rw [hip, hport]
        exact hkey
      · exact h.keyed k b hi' hk hb
  · intro k b hk
    rw [hm] at hk
    have hold := h.used k b hk
    rcases report_cases hr with ⟨-, rfl, -⟩ | ⟨a, hi, -, -, rfl, -⟩
    · exact hold
    · rw [requeue_heap]
      exact hold

/-- The new host has the ip and the port of its key. -/
theorem Found.insertHost (h : lb.Found) (junk : Addr → Junk) (g : Lbrss.HostInfo) :
    (insertHost E junk lb g).Found := by
  by_cases hin : key g.ip g.port ∈ lb.hostMap
  · rw [insertHost_known hin]
    exact h
  have hlisted := listed_insertHost (E := E) h.listed junk g
  rw [insertHost_new hin] at hlisted ⊢
  refine ⟨?_, ?_, hlisted⟩
  · intro k a hi hk hr
    dsimp only at hk hr
    by_cases hkg : k = key g.ip g.port
    · rw [hkg, AList.lookup_insert] at hk
      cases hk
      rw [Heap.read_alloc_next] at hr
      cases hr
      rw [hkg, endpoint_newHost]
    · rw [AList.lookup_insert_ne hkg] at hk
      rw [Heap.read_alloc_ne (h.used k a hk).ne] at hr
      exact h.keyed k a hi hk hr
  · intro k a hk
    dsimp only at hk
    show a < lb.heap.next + 1
    by_cases hkg : k = key g.ip g.port
    · rw [hkg, AList.lookup_insert] at hk
      cases hk
      exact Nat.lt_succ_self _
    · rw [AList.lookup_insert_ne hkg] at hk
      exact Nat.lt_succ_of_lt (h.used k a hk)

theorem Found.insertHosts (junk : Addr → Junk) (gs : List Lbrss.HostInfo) :
    ∀ lb : LoadBalance, lb.Found → (gs.foldl (LoadBalance.insertHost E junk) lb).Found := by
  induction gs with
  | nil => exact fun _ h => h
  | cons g gs ih => exact fun lb h => ih _ (h.insertHost junk g)

/-- A deleted host leaves its list; its entry stays in the map. -/
theorem Found.deleteHost (h : lb.Found) {k : UInt64} (hd : lb.deleteHost k = .ok lb') : lb'.Found := by
  obtain ⟨a, hi, -, -, rfl⟩ := deleteHost_cases hd
  have hkeyed : ∀ k b hi, lb.hostMap.lookup k = some b → (lb.heap.free a).read b = some hi →
      k = key (endpoint hi).ip (endpoint hi).port := by
    intro k b hi hk hr
    by_cases hba : b = a
    · rw [hba, Heap.read_free_self] at hr
      cases hr
    · rw [Heap.read_free_ne hba] at hr
      exact h.keyed k b hi hk hr
  -- the flag only decides which list the host leaves
  split
  · refine ⟨hkeyed, h.used, fun b hb => h.listed b ?_⟩
    simp only [List.mem_append, List.mem_filter] at hb ⊢
    tauto
  · refine ⟨hkeyed, h.used, fun b hb => h.listed b ?_⟩
    simp only [List.mem_append, List.mem_filter] at hb ⊢
    tauto

theorem Found.update (h : lb.Found) {now : ℤ} {junk : Addr → Junk} {rsp : Lbrss.GetRouteResponse}
    (hu : lb.update E now junk rsp = .ok lb') : lb'.Found := by
  obtain ⟨-, t, ht, rfl⟩ := update_cases hu
  have hins := Found.insertHosts (E := E) junk rsp.host lb h
  have hdel : t.Found := Runs.run_inv (I := Found) (fun s k u hs hk => hs.deleteHost hk) hins ht
  exact ⟨hdel.keyed, hdel.used, hdel.listed⟩

theorem found_kept (E : Env) : RouteLB.Kept E Found where
  new := found_new
  pull := fun _ h => ⟨h.keyed, h.used, h.listed⟩
  pick := fun _ _ _ h hp => h.pick (picked hp)
  update := fun _ _ _ _ _ h hu => h.update hu
  report := fun _ _ _ _ _ _ _ _ h hr => h.report hr

theorem found_reset (h : lb.Found) : (RouteLB.resetStatus lb).Found := by
  unfold RouteLB.resetStatus
  split
  · exact ⟨h.keyed, h.used, h.listed⟩
  · exact h

/-- `pick_one_host` serves the host behind `a`, the front of one of the lists, and answers with
`host`. -/
def HandsOut (E : Env) (lb : LoadBalance) (a : Addr) (host : Lbrss.HostInfo) (lb' : LoadBalance) : Prop :=
  ∃ p, lb.pickOneHost E = .ok (lb', p) ∧ p.host = some host ∧
    (p.queue = some .idle ∧ lb.idleList.head? = some a ∨
      p.queue = some .overload ∧ lb.overloadList.head? = some a)

/-- A pick that answers with a host serves a listed one. -/
theorem picked_handsOut {p : Picked} {host : Lbrss.HostInfo} (hp : lb.pickOneHost E = .ok (lb', p))
    (hh : p.host = some host) : ∃ a hi, a ∈ lb.idleList ++ lb.overloadList ∧ lb.heap.read a = some hi ∧
      endpoint hi = host ∧ HandsOut E lb a host lb' := by
  have hpick := picked hp
  cases hpick with
  | @overload a t hi hl hr _ =>
    have hq : lb.overloadList.head? = some a := by rw [hl, List.head?_cons]
    refine ⟨a, hi, ?_, hr, Option.some.inj hh, _, hp, hh, Or.inr ⟨rfl, hq⟩⟩
    rw [hl]
    simp
  | reject _ _ => cases hh
  | @idle a t hi hl hr _ =>
    have hq : lb.idleList.head? = some a := by rw [hl, List.head?_cons]
    refine ⟨a, hi, ?_, hr, Option.some.inj hh, _, hp, hh, Or.inl ⟨rfl, hq⟩⟩
    rw [hl]
    simp

/-- The key of a live host is the only one that leads to it. -/
theorem Found.lookup_iff (h : lb.Found) {a : Addr} {hi : HostInfo}
    (ha : a ∈ lb.idleList ++ lb.overloadList) (hr : lb.heap.read a = some hi) (k : UInt64) :
    lb.hostMap.lookup k = some a ↔ k = key (endpoint hi).ip (endpoint hi).port := by
  constructor
  · exact fun hk => h.keyed k a hi hk hr
  · obtain ⟨k', hk'⟩ := h.listed a ha
    intro hk
    rw [hk, ← h.keyed k' a hi hk' hr]
    exact hk'

/-- A report with this host is about the one behind `a`: its key is the only one that leads
there, and the report gives a verdict and leaves the others alone. -/
def Finds (E : Env) (lb : LoadBalance) (host : Lbrss.HostInfo) (a : Addr) : Prop :=
  (∀ k, lb.hostMap.lookup k = some a ↔ k = key host.ip host.port) ∧
    ∀ now ts retcode, ∃ u v, lb.report E now ts host.ip host.port retcode = .ok (u, some v) ∧
      LeavesOthers lb u a

theorem Found.finds (h : lb.Found) {a : Addr} {hi : HostInfo}
    (ha : a ∈ lb.idleList ++ lb.overloadList) (hr : lb.heap.read a = some hi) :
    Finds E lb (endpoint hi) a := by
  refine ⟨h.lookup_iff ha hr, fun now ts retcode => ?_⟩
  have hk := (h.lookup_iff ha hr _).2 rfl
  have hrep : ∃ u v, lb.report E now ts (endpoint hi).ip (endpoint hi).port retcode = .ok (u, some v) := by
    unfold LoadBalance.report
    simp only [hk, hr]
    exact ⟨_, _, rfl⟩
  obtain ⟨u, v, hu⟩ := hrep
  exact ⟨u, v, hu, report_others hu hk⟩

end LoadBalance

/-! ## From the response to the report -/

/-- The API hands out the ip and the port of the host of the response, if there is one. -/
theorem mem_hostOutcome {id : ℕ} {rsp : Lbrss.GetHostResponse} {ip : List Char} {port : Int32}
    (h : (ip, port) ∈ (APIClient.hostOutcome id rsp).hosts) :
    ∃ host, rsp.host = some host ∧ ip = inetNtoa host.ip.toUInt32 ∧ port = host.port := by
  unfold APIClient.hostOutcome at h
  dsimp only at h
  split at h
  · obtain ⟨host, hmem, heq⟩ := List.mem_map.1 h
    unfold ipPort at heq
    obtain ⟨hip, hport⟩ := Prod.mk.inj heq
    exact ⟨host, Option.mem_toList.1 hmem, hip.symm, hport.symm⟩
  · cases h

/-- **The report names the host as the response did**, where `inet_aton` reads back what
`inet_ntoa` wrote. -/
theorem reportRequest_host {inetAton : List Char → Option UInt32}
    (haton : ∀ addr, inetAton (inetNtoa addr) = some addr) (saddr : UInt32) (modid cmdid : Int32)
    (host : Lbrss.HostInfo) (retcode : Int32) :
    (APIClient.reportRequest inetAton saddr modid cmdid (inetNtoa host.ip.toUInt32) host.port
      retcode).host = host := by
  unfold APIClient.reportRequest
  rw [haton, Option.getD_some, Int32.toInt32_toUInt32]

namespace RouteLB

variable {E : Env} {rl rl' : RouteLB} {ops : List Op} {modid cmdid junk : Int32} {now : ℤ} {reply : HostReply}

/-- A response with a host comes from a pick. -/
theorem getHost_serves {host : Lbrss.HostInfo} (h : rl.getHost E modid cmdid now junk = .ok (rl', reply))
    (hh : reply.rsp.host = some host) :
    ∃ lb lb' p, rl.routeLbMap.lookup (key modid cmdid) = some lb ∧ lb.pickOneHost E = .ok (lb', p) ∧
      p.host = some host ∧ rl' = rl.set (key modid cmdid) (repull E now lb').1 := by
  have hgot := gotHost (E := E) modid cmdid now junk rl
  rw [h] at hgot
  cases hgot with
  | unknown _ => cases hh
  | waiting _ _ _ => cases hh
  | picked hl _ hp => exact ⟨_, _, _, hl, hp, hh, rfl⟩

/-- **A report with what `get_host` gave is about the host that was served.** In every state that
a run reaches, the host of a response was served from a list of the load balancer. Where the API
hands out its ip and port, a report with these, for the same modid and cmdid and any return
code, goes to the same server and the same load balancer, and there to that host. No two
pairs have one key. -/
theorem report_finds_host (E : Env) (inetAton : List Char → Option UInt32)
    (haton : ∀ addr, inetAton (inetNtoa addr) = some addr)
    (hrun : Runs.run (step E) new ops = .ok rl)
    (hget : rl.getHost E modid cmdid now junk = .ok (rl', reply)) {id : ℕ} {ip : List Char} {port : Int32}
    (hmem : (ip, port) ∈ (APIClient.hostOutcome id reply.rsp).hosts) :
    (∃ lb lb' a host, rl.routeLbMap.lookup (key modid cmdid) = some lb ∧
      LoadBalance.HandsOut E lb a host lb' ∧ reply.rsp.host = some host ∧
      rl'.routeLbMap.lookup (key modid cmdid) = some (repull E now lb').1 ∧
      ∀ saddr retcode i req,
        APIClient.report inetAton saddr modid cmdid ip port retcode = .ok (i, req) →
        APIClient.sockfd (APIClient.getHostIndex modid cmdid) = some i ∧
          key req.modid req.cmdid = key modid cmdid ∧
          LoadBalance.Finds E lb req.host a ∧ LoadBalance.Finds E (repull E now lb').1 req.host a) ∧
    ∀ hi lo hi' lo' : Int32, key hi lo = key hi' lo' → hi = hi' ∧ lo = lo' := by
  refine ⟨?_, fun _ _ _ _ => key_inj⟩
  obtain ⟨host, hhost, rfl, rfl⟩ := mem_hostOutcome hmem
  obtain ⟨lb, lb', p, hl, hp, hph, rfl⟩ := getHost_serves hget hhost
  obtain ⟨a, hi, ha, hr, rfl, hserves⟩ := LoadBalance.picked_handsOut hp hph
  have hkept := LoadBalance.found_kept E
  have hfound : lb.Found := hkept.run (fun _ => LoadBalance.found_reset) hrun _ _ hl
  -- the pick and the pull behind it leave the map and the hosts as they are
  have hfound' : (repull E now lb').1.Found := hkept.repull (hkept.pick _ _ _ hfound hp) now
  obtain ⟨-, hheap, -, hidle, hover⟩ := (LoadBalance.picked hp).frame
  have hafter : (repull E now lb').1.heap = lb'.heap ∧ (repull E now lb').1.idleList = lb'.idleList ∧
      (repull E now lb').1.overloadList = lb'.overloadList := by
    unfold repull
    split
    · exact ⟨rfl, rfl, rfl⟩
    · exact ⟨rfl, rfl, rfl⟩
  have ha' : a ∈ (repull E now lb').1.idleList ++ (repull E now lb').1.overloadList := by
    rw [hafter.2.1, hafter.2.2]
    exact (hidle.append hover).mem_iff.2 ha
  have hr' : (repull E now lb').1.heap.read a = some hi := by
    rw [hafter.1, hheap]
    exact hr
  refine ⟨lb, lb', a, LoadBalance.endpoint hi, hl, hserves, hhost, AList.lookup_insert _, ?_⟩
  intro saddr retcode i req hreq
  unfold APIClient.report at hreq
  rcases hsock : APIClient.sockfd (APIClient.reportIndex modid cmdid) with _ | j
  · rw [hsock] at hreq
    cases hreq
  · rw [hsock] at hreq
    cases hreq
    have hname := reportRequest_host haton saddr modid cmdid (LoadBalance.endpoint hi) retcode
    rw [hname]
    exact ⟨hsock, rfl, hfound.finds ha hr, hfound'.finds ha' hr'⟩

/-- `inet_aton` on dotted quads. -/
def dottedQuad (text : List Char) : Option UInt32 :=
  (Ipv4.parse text).map fun q => UInt32.ofNat q.reverse.toBig

theorem dottedQuad_inetNtoa (addr : UInt32) : dottedQuad (inetNtoa addr) = some addr := by
  unfold dottedQuad inetNtoa
  rw [Ipv4.parse_text, Option.map_some]
  have hbig : Ipv4.ofBig addr = (Ipv4.ofLittle addr).reverse := Ipv4.ofBig_eq addr
  have hnum := Ipv4.ofBig_eq_iff.1 hbig
  rw [← hnum, UInt32.ofNat_toNat]

/-- A host with a negative ip and a negative port: 251.255.255.255:-80. -/
theorem report_finds_host_negative :
    let ops : List Op := [.getHost 1 1 0 0, .updateHost 1 1 0 (fun _ => ⟨0, 0⟩) ⟨1, 1, [⟨-5, -80⟩]⟩]
    ∃ rl rl' reply lb lb' a host, Runs.run (step Env.shipped) new ops = .ok rl ∧
      rl.getHost Env.shipped 1 1 0 0 = .ok (rl', reply) ∧
      LoadBalance.HandsOut Env.shipped lb a host lb' ∧ reply.rsp.host = some host ∧
      LoadBalance.Finds Env.shipped lb
        (APIClient.reportRequest dottedQuad 0 1 1 (inetNtoa (-5)) (-80) 0).host a := by
  intro ops
  have hall : ((Runs.run (step Env.shipped) new ops).toOption.map fun rl =>
      (rl.getHost Env.shipped 1 1 0 0).toOption.map fun r => (APIClient.hostOutcome 0 r.2.rsp).hosts) =
        some (some [(inetNtoa (-5), -80)]) := by decide +kernel
  obtain ⟨rl, hrun, hrl⟩ := Runs.ok_of_toOption hall
  obtain ⟨⟨rl', reply⟩, hget, hhosts⟩ := Runs.ok_of_toOption hrl
  have hmem : (inetNtoa (-5), -80) ∈ (APIClient.hostOutcome 0 reply.rsp).hosts := by
    rw [hhosts]
    exact List.mem_singleton.2 rfl
  obtain ⟨⟨lb, lb', a, host, -, hserves, hhost, -, hfinds⟩, -⟩ :=
    report_finds_host Env.shipped dottedQuad dottedQuad_inetNtoa hrun hget hmem
  exact ⟨rl, rl', reply, lb, lb', a, host, hrun, hget, hserves, hhost, (hfinds 0 0 2 _ rfl).2.2.1⟩

end RouteLB

end LbRpc
