import LbRpc.Dns.RouteLoad
import LbRpc.Proof.Address
import LbRpc.Proof.CurrentHosts
import LbRpc.Proof.Freshness
import LbRpc.Proof.Pulls

/-!
# The agent's answers are snapshots of `RouteData`

The web console, the DNS service and the agent in one system: the service answers the
agent's requests, and pushes, from the map that `get_hosts` reads at that time. Which entries
are pushed, and when, is left open here. As in `PullNet`, connections are lost between messages.

* `RouteNet.step`: any of them goes on. The history remembers which edits were in the map a
  response was made from.
* `RouteNet.Inv`: which snapshot each load balancer holds, and that what is on the way is newer.
* `RouteNet.answers_are_snapshots`: what the agent answers for a pair is `RouteData` as of one
  moment, and of no earlier one than what it has answered before.
-/

namespace LbRpc

open Lbrss

/-- The edits in the map that `get_hosts` reads. -/
def World.mapLog (w : World) : List ℕ := w.hist.installed.getD []

structure RouteNet where
  dns : World
  agent : PullNet
  /-- the hosts that `get_route` of the service has looked up for the request in front and not
  sent yet, and the edits in their map -/
  held : Option (List Lbrss.HostInfo × List ℕ)
  /-- for each response in `agent.down` the edits in the map it was made from -/
  downLogs : List (List ℕ)
  /-- those of the last response that was dealt with, under the key of its pair -/
  shown : UInt64 → Option (List ℕ)

namespace RouteNet

/-- The next thing that happens. A `walk` is the order in which the service's loop comes to the
hosts of a set. -/
inductive Event
  | dns (e : World.Event)
  /-- `get_route` of the service looks up the hosts for the request in front -/
  | lookUp (walk : List UInt64)
  /-- it sends its response -/
  | answer (room : Bool)
  /-- `push_change_task` sends the routes of the entry `mod` -/
  | push (mod : UInt64) (walk : List UInt64)
  /-- anything on the agent's side, and the loss of the connection -/
  | agent (e : PullNet.Event)

/-- Nothing has happened. -/
def start (edits : List Edit) (db : Db) (route : Route) (now : ℤ) (connected : Bool) : RouteNet :=
  ⟨World.start edits db route now, PullNet.start connected, none, [], fun _ => none⟩

def lookUp (walk : List UInt64) (s : RouteNet) : RouteNet :=
  match s.held, s.agent.up with
  | none, req :: _ =>
    if s.agent.connected ∧ Walks walk (s.dns.checker.route.getHosts req.modid req.cmdid) then
      { s with held := some (walk.map hostInfo, s.dns.mapLog) }
    else s
  | _, _ => s

def answer (room : Bool) (s : RouteNet) : RouteNet :=
  match s.held with
  | none => s
  | some (hosts, log) =>
    { s with
      agent := s.agent.serve hosts room
      held := none
      downLogs := if room then s.downLogs ++ [log] else s.downLogs }

def push (mod : UInt64) (walk : List UInt64) (s : RouteNet) : RouteNet :=
  if s.held.isNone ∧ s.agent.connected ∧ Walks walk (pushHosts mod s.dns.checker.route) then
    { s with
      agent := { s.agent with
        down := s.agent.down ++ [routeResponse (pushPair mod).1 (pushPair mod).2 walk] }
      downLogs := s.downLogs ++ [s.dns.mapLog] }
  else s

/-- What an event on the agent's side means for the history. -/
def follow (s : RouteNet) : PullNet.Event → RouteNet
  | .receive _ _ =>
    match s.agent.job, s.agent.down, s.downLogs with
    | .idle, rsp :: _, log :: logs =>
      { s with downLogs := logs, shown := Function.update s.shown (pairKey (PullNet.pairOf rsp)) (some log) }
    | _, _, _ => s
  | .close _ => if s.agent.job = .idle ∧ s.agent.connected then { s with held := none, downLogs := [] } else s
  | _ => s

variable (E : Env) (waitTime : ℤ)

/-- One step. The events of `PullNet` that stand for the service are not taken. -/
def step (s : RouteNet) : Event → Except DnsClientStop RouteNet
  | .dns e =>
    match s.dns.step waitTime e with
    | .error f => nomatch f
    | .ok w => .ok { s with dns := w }
  | .lookUp walk => .ok (s.lookUp walk)
  | .answer room => .ok (s.answer room)
  | .push mod walk => .ok (s.push mod walk)
  | .agent (.serve _ _) => .ok s
  | .agent (.push _) => .ok s
  | .agent e =>
    match s.agent.step E e with
    | .error f => .error f
    | .ok a => .ok { s.follow e with agent := a }

end RouteNet

/-! ## The map of the service -/

/-- What a map that was built from rows has under a key. -/
theorem RouteMap.mem_ofRows {rows : List RouteRow} {k v : UInt64} :
    v ∈ (AList.lookup k (RouteMap.ofRows rows)).getD ∅ ↔ ∃ r ∈ rows, r.mod = k ∧ r.value = v := by
  induction rows using List.reverseRecOn with
  | nil =>
    have hempty : AList.lookup k (RouteMap.ofRows []) = none := AList.lookup_empty k
    rw [hempty]
    simp
  | append_singleton rows r ih =>
    rw [RouteMap.ofRows_snoc, insertRow_eq]
    unfold RouteMap.insertHost
    by_cases hk : k = r.mod
    · subst hk
      rw [AList.lookup_insert, Option.getD_some, Finset.mem_insert, ih]
      simp only [List.mem_append, List.mem_singleton, or_and_right, exists_or, exists_eq_left, true_and]
      rw [or_comm, eq_comm]
    · rw [AList.lookup_insert_ne hk, ih]
      have hne : r.mod ≠ k := fun h => hk h.symm
      simp only [List.mem_append, List.mem_singleton, or_and_right, exists_or, exists_eq_left, hne, false_and,
        or_false]

/-- **What `RouteData` says**: a row of the pair has the host. -/
def RouteTable.Names (t : RouteTable) (req : GetRouteRequest) (x : Lbrss.HostInfo) : Prop :=
  ∃ r ∈ t.rows, r.modid.toInt32 = req.modid ∧ r.cmdid.toInt32 = req.cmdid ∧ hostInfo r.value = x

/-- A response that names the hosts of `RouteData` after the edits of `log`. -/
def IsSnapshot (edits : List Edit) (t : RouteTable) (rsp : GetRouteResponse) (log : List ℕ) : Prop :=
  ∀ x, x ∈ rsp.host ↔ (World.replay edits t log).Names (PullNet.pairOf rsp) x

variable {edits : List Edit} {t : RouteTable}

/-- What is looked up in the map of a moment is a snapshot of it. -/
theorem isSnapshot_walk {r : Route} {log : List ℕ} (hdata : r.data = .ofRows (World.replay edits t log).rows)
    {modid cmdid : Int32} {walk : List UInt64} (hwalk : Walks walk (r.getHosts modid cmdid)) :
    IsSnapshot edits t (routeResponse modid cmdid walk) log := by
  intro x
  have hmem : ∀ v, v ∈ walk ↔ ∃ row ∈ (World.replay edits t log).rows, row.mod = key modid cmdid ∧ row.value = v := by
    intro v
    rw [← List.mem_toFinset, hwalk.2, ← RouteMap.mem_ofRows, ← hdata]
    rfl
  constructor
  · intro hx
    obtain ⟨v, hv, rfl⟩ := List.mem_map.1 hx
    obtain ⟨row, hrow, hmod, rfl⟩ := (hmem v).1 hv
    obtain ⟨hmodid, hcmdid⟩ := key_inj hmod
    exact ⟨row, hrow, hmodid, hcmdid, rfl⟩
  · rintro ⟨row, hrow, hmodid, hcmdid, rfl⟩
    exact List.mem_map.2 ⟨row.value, (hmem _).2 ⟨row, hrow, congrArg₂ key hmodid hcmdid, rfl⟩, rfl⟩

namespace World

variable {w u : World}

/-- What a statement of the checker does to the logs of the maps. -/
theorem remember_maps (ok : Bool) (w : World) :
    ((w.remember ok).loaded = w.hist.loaded ∨ (w.remember ok).loaded = w.hist.log) ∧
      ((w.remember ok).installed = w.hist.installed ∧ w.checker.pc ≠ .swap ∧ w.checker.pc ≠ .reloadSwap ∨
        (w.remember ok).installed = some w.hist.loaded ∧ (w.remember ok).loaded = w.hist.loaded) := by
  unfold remember
  cases hpc : w.checker.pc <;> rcases ok with _ | _ <;> simp

/-- **The map is that of a moment**, and what was loaded since is that of a later one. -/
structure Dated (edits : List Edit) (t : RouteTable) (w : World) : Prop where
  tables : Tables edits t w
  maps : Maps edits t w
  data : w.checker.route.data = .ofRows (replay edits t w.mapLog).rows
  older : w.mapLog <+: w.hist.loaded
  loaded : w.hist.loaded <+: w.hist.log

theorem dated_start {version : Option (Option ℤ)} {db : Db} {route : Route}
    (hnew : Route.new version (some db.routeData.rows) = some route) (edits : List Edit) (now : ℤ) :
    Dated edits db.routeData (start edits db route now) where
  tables := tables_start edits db route now
  maps := (aged_start (Route.new_pointers hnew) edits db now).maps
  data := Route.new_data hnew
  older := List.prefix_refl _
  loaded := List.prefix_refl _

/-- A request changes neither the map nor the logs of the maps. -/
theorem Dated.web (h : Dated edits t w) {i : ℕ} {hd : Handler} (hi : w.handlers[i]? = some hd) :
    Dated edits t (w.web i hd) ∧ (w.web i hd).mapLog = w.mapLog := by
  obtain ⟨-, hchecker, hloaded, hinst⟩ := web_checker (w := w) i hd
  have hlog : (w.web i hd).mapLog = w.mapLog := by
    unfold mapLog
    rw [hinst]
  refine ⟨⟨h.tables.web hi, h.maps.web i hd, ?_, ?_, ?_⟩, hlog⟩
  · rw [hchecker, hlog]
    exact h.data
  · rw [hlog, hloaded]
    exact h.older
  · rw [hloaded]
    exact h.loaded.trans (web_log i hd)

theorem Dated.poll (h : Dated edits t w) (waitTime : ℤ) (ok : Bool) :
    Dated edits t (w.poll waitTime ok) ∧ w.mapLog <+: (w.poll waitTime ok).mapLog := by
  obtain ⟨hload, hinst⟩ := remember_maps ok w
  have hmaps := h.maps.poll h.tables waitTime ok
  have hlog : (w.poll waitTime ok).hist.log = w.hist.log := (remember_log ok w).1
  have hloaded : (w.poll waitTime ok).hist.loaded <+: (w.poll waitTime ok).hist.log ∧
      w.hist.loaded <+: (w.poll waitTime ok).hist.loaded := by
    rw [hlog]
    rcases hload with heq | heq
    · have heq' : (w.poll waitTime ok).hist.loaded = w.hist.loaded := heq
      rw [heq']
      exact ⟨h.loaded, List.prefix_refl _⟩
    · have heq' : (w.poll waitTime ok).hist.loaded = w.hist.log := heq
      rw [heq']
      exact ⟨List.prefix_refl _, h.loaded⟩
  rcases hinst with ⟨hinst, hswap, hreload⟩ | ⟨hinst, hsame⟩
  · -- the map stays
    have hmap : (w.poll waitTime ok).mapLog = w.mapLog := congrArg (Option.getD · []) hinst
    have hdata : (w.poll waitTime ok).checker.route.data = w.checker.route.data :=
      Checker.step_data waitTime ok w.clock w.db h.maps.pointers hswap hreload
    refine ⟨⟨h.tables.poll waitTime ok, hmaps, ?_, ?_, hloaded.1⟩, ?_⟩
    · rw [hdata, hmap]
      exact h.data
    · rw [hmap]
      exact h.older.trans hloaded.2
    · rw [hmap]
  · have hmap : (w.poll waitTime ok).mapLog = w.hist.loaded := congrArg (Option.getD · []) hinst
    refine ⟨⟨h.tables.poll waitTime ok, hmaps, ?_, ?_, hloaded.1⟩, ?_⟩
    · rw [hmap]
      exact hmaps.installed _ hinst
    · rw [hmap]
      exact hloaded.2
    · rw [hmap]
      exact h.older

/-- **One step**: the map is that of the same moment or of a later one. -/
theorem Dated.step (h : Dated edits t w) {e : Event} {waitTime : ℤ} (hs : w.step waitTime e = .ok u) :
    Dated edits t u ∧ w.mapLog <+: u.mapLog := by
  rcases e with seconds | i | ok
  · obtain rfl := Except.ok.inj hs
    exact ⟨⟨⟨h.tables.requests, h.tables.written, h.tables.table, h.tables.authors⟩,
      ⟨h.maps.pointers, h.maps.loaded, h.maps.installed, h.maps.published⟩, h.data, h.older, h.loaded⟩,
      List.prefix_refl _⟩
  · unfold World.step at hs
    dsimp only at hs
    rcases hi : w.handlers[i]? with _ | hd
    · rw [hi] at hs
      obtain rfl := Except.ok.inj hs
      exact ⟨h, List.prefix_refl _⟩
    · rw [hi] at hs
      obtain rfl := Except.ok.inj hs
      obtain ⟨hdated, hlog⟩ := h.web hi
      exact ⟨hdated, hlog ▸ List.prefix_refl _⟩
  · obtain rfl := Except.ok.inj hs
    exact h.poll waitTime ok

/-- A step writes `RouteData` once at most. -/
theorem log_step {e : Event} {waitTime : ℤ} (hs : w.step waitTime e = .ok u) :
    u.hist.log = w.hist.log ∨ ∃ i, u.hist.log = w.hist.log ++ [i] := by
  rcases e with seconds | i | ok
  · obtain rfl := Except.ok.inj hs
    exact Or.inl rfl
  · unfold World.step at hs
    dsimp only at hs
    rcases hi : w.handlers[i]? with _ | hd
    · rw [hi] at hs
      obtain rfl := Except.ok.inj hs
      exact Or.inl rfl
    · rw [hi] at hs
      obtain rfl := Except.ok.inj hs
      exact web_cases (P := fun v => v.hist.log = w.hist.log ∨ ∃ i, v.hist.log = w.hist.log ++ [i])
        (Or.inl rfl) (Or.inr ⟨i, rfl⟩) (fun _ _ _ => Or.inl rfl) fun _ => Or.inl rfl
  · obtain rfl := Except.ok.inj hs
    exact Or.inl (remember_log ok w).1

end World

/-! ## The calls and the responses -/

section Calls

variable {E : Env} {hosts : List Lbrss.HostInfo}

theorem repull_pair (now : ℤ) (lb : LoadBalance) : (RouteLB.repull E now lb).1.pair = lb.pair := by
  unfold RouteLB.repull
  split <;> rfl

theorem LoadBalance.Current.repull {lb : LoadBalance} (h : lb.Current hosts) (now : ℤ) :
    (RouteLB.repull E now lb).1.Current hosts := by
  unfold RouteLB.repull
  split
  · exact h.status .pulling
  · exact h

/-- **A request of the API** brings no hosts. -/
theorem run_current {c : ApiCall} {rl rl' : RouteLB} {pulled : Option GetRouteRequest}
    (h : c.run E rl = .ok (rl', pulled)) {k : UInt64} {lb' : LoadBalance}
    (hl : rl'.routeLbMap.lookup k = some lb') :
    lb'.Current [] ∨ ∃ lb, rl.routeLbMap.lookup k = some lb ∧ lb'.pair = lb.pair ∧
      ∀ hosts, lb.Current hosts → lb'.Current hosts := by
  have hsame : rl.routeLbMap.lookup k = some lb' → lb'.Current [] ∨ ∃ lb, rl.routeLbMap.lookup k = some lb ∧
      lb'.pair = lb.pair ∧ ∀ hosts, lb.Current hosts → lb'.Current hosts :=
    fun hold => Or.inr ⟨lb', hold, rfl, fun _ => id⟩
  cases c with
  | getHost modid cmdid now junk =>
    obtain ⟨⟨r, reply⟩, hr, heq⟩ := RouteLB.map_ok h
    obtain ⟨rfl, rfl⟩ := Prod.mk.inj heq
    have hgot := RouteLB.gotHost (E := E) modid cmdid now junk rl
    rw [hr] at hgot
    cases hgot with
    | unknown _ =>
      rcases lookup_set hl with ⟨-, rfl⟩ | ⟨-, hold⟩
      · exact Or.inl ((LoadBalance.current_new modid cmdid junk).status .pulling)
      · exact hsame hold
    | waiting _ _ _ => exact hsame hl
    | picked hin _ hp =>
      rcases lookup_set hl with ⟨rfl, rfl⟩ | ⟨-, hold⟩
      · exact Or.inr ⟨_, hin, (repull_pair now _).trans (LoadBalance.picked hp).pair,
          fun _ hcur => (hcur.pick hp).repull now⟩
      · exact hsame hold
  | getRoute modid cmdid now junk =>
    obtain ⟨⟨r, reply⟩, hr, heq⟩ := RouteLB.map_ok h
    obtain ⟨rfl, rfl⟩ := Prod.mk.inj heq
    have hgot := RouteLB.gotRoute (E := E) modid cmdid now junk rl
    rw [hr] at hgot
    cases hgot with
    | unknown _ =>
      rcases lookup_set hl with ⟨-, rfl⟩ | ⟨-, hold⟩
      · exact Or.inl ((LoadBalance.current_new modid cmdid junk).status .pulling)
      · exact hsame hold
    | routes hin _ =>
      rcases lookup_set hl with ⟨rfl, rfl⟩ | ⟨-, hold⟩
      · exact Or.inr ⟨_, hin, repull_pair now _, fun _ hcur => hcur.repull now⟩
      · exact hsame hold
  | report req now ts cts =>
    obtain ⟨⟨r, reply⟩, hr, heq⟩ := RouteLB.map_ok h
    obtain ⟨rfl, rfl⟩ := Prod.mk.inj heq
    have hrep := RouteLB.reportedHost (E := E) req now ts cts rl
    rw [hr] at hrep
    cases hrep with
    | unknown _ => exact hsame hl
    | reported hin hp _ =>
      rcases lookup_set hl with ⟨rfl, rfl⟩ | ⟨-, hold⟩
      · exact Or.inr ⟨_, hin, (LoadBalance.report_pair hp).1, fun _ hcur => hcur.report hp⟩
      · exact hsame hold

/-- **A response** brings its hosts to the load balancer of its pair, and to no other. -/
theorem recvRoute_current {lbs lbs' : RouteLBs} {rsp : GetRouteResponse} {now : ℤ} {junk : Addr → Junk}
    (hplaced : Placed lbs) (h : RouteLBs.recvRoute E rsp now junk lbs = .ok lbs') {j : Fin 3} {k : UInt64}
    {lb' : LoadBalance} (hl : (lbs' j).routeLbMap.lookup k = some lb') :
    (k ≠ pairKey (PullNet.pairOf rsp) ∧ (lbs j).routeLbMap.lookup k = some lb') ∨
      (k = pairKey (PullNet.pairOf rsp) ∧ lb'.pair = PullNet.pairOf rsp ∧
        ∃ lb, (lbs j).routeLbMap.lookup k = some lb ∧ ∀ hosts, lb.Current hosts → lb'.Current rsp.host) := by
  unfold RouteLBs.recvRoute at h
  rcases hslot : RouteLBs.slot (dealRecvRouteIndex rsp.modid rsp.cmdid) with _ | i
  · rw [hslot] at h
    cases h
  rw [hslot] at h
  dsimp only at h
  rcases hu : (lbs i).updateHost E rsp.modid rsp.cmdid now junk rsp with f | rl
  · rw [hu] at h
    cases h
  rw [hu] at h
  obtain rfl := Except.ok.inj h
  by_cases hj : j = i
  · subst hj
    rw [Function.update_self] at hl
    have hupd := RouteLB.updatedHost (E := E) rsp.modid rsp.cmdid now junk rsp (lbs j)
    rw [hu] at hupd
    cases hupd with
    | unknown hnone =>
      refine Or.inl ⟨?_, hl⟩
      rintro rfl
      rw [show pairKey (PullNet.pairOf rsp) = key rsp.modid rsp.cmdid from rfl, hnone] at hl
      cases hl
    | erased _ _ =>
      have hl' : ((lbs j).routeLbMap.erase (key rsp.modid rsp.cmdid)).lookup k = some lb' := hl
      by_cases hk : k = key rsp.modid rsp.cmdid
      · rw [hk, AList.lookup_erase] at hl'
        cases hl'
      · rw [AList.lookup_erase_ne hk] at hl'
        exact Or.inl ⟨hk, hl'⟩
    | @updated lb _ hin _ hup =>
      rcases lookup_set hl with ⟨rfl, rfl⟩ | ⟨hk, hold⟩
      · have hkey : pairKey lb.pair = pairKey (PullNet.pairOf rsp) := (hplaced j _ _ hin).1.symm
        exact Or.inr ⟨rfl, (LoadBalance.update_pair hup).1.trans (pairKey_inj hkey), lb, hin,
          fun _ hcur => hcur.update hup⟩
      · exact Or.inl ⟨hk, hold⟩
  · rw [Function.update_of_ne hj] at hl
    refine Or.inl ⟨?_, hl⟩
    -- the load balancer of the pair is in its shard
    rintro rfl
    obtain ⟨hkey, hhome⟩ := hplaced j _ _ hl
    rw [← pairKey_inj hkey] at hhome
    exact hj (Option.some.inj (hhome.symm.trans hslot))

end Calls

/-! ## The invariant -/

namespace RouteNet

variable {E : Env} {waitTime : ℤ} {s u : RouteNet}

/-- The logs behind the responses that are made and not dealt with, in their order. -/
def past (s : RouteNet) : List (List ℕ) := s.downLogs ++ (s.held.map (·.2)).toList

/-- A load balancer under the key `k` has no host, or the hosts of the snapshot that was dealt
with. -/
def Fits (edits : List Edit) (t : RouteTable) (shown : UInt64 → Option (List ℕ)) (k : UInt64)
    (lb : LoadBalance) : Prop :=
  ∃ hosts, lb.Current hosts ∧ (hosts = [] ∨ ∃ log, shown k = some log ∧
    IsSnapshot edits t ⟨lb.pair.modid, lb.pair.cmdid, hosts⟩ log)

theorem Fits.of_current {shown shown' : UInt64 → Option (List ℕ)} {k : UInt64} {lb lb' : LoadBalance}
    (h : Fits edits t shown k lb) (hpair : lb'.pair = lb.pair)
    (hcur : ∀ hosts, lb.Current hosts → lb'.Current hosts) (hshown : shown' k = shown k) :
    Fits edits t shown' k lb' := by
  obtain ⟨hosts, hlb, hfits⟩ := h
  refine ⟨hosts, hcur hosts hlb, ?_⟩
  rw [hpair, hshown]
  exact hfits

/-- **The invariant.** -/
structure Inv (edits : List Edit) (t : RouteTable) (s : RouteNet) : Prop where
  dns : s.dns.Dated edits t
  agent : s.agent.Inv
  down : List.Forall₂ (IsSnapshot edits t) s.agent.down s.downLogs
  held : ∀ hosts log, s.held = some (hosts, log) → ∃ req up, s.agent.up = req :: up ∧
    IsSnapshot edits t ⟨req.modid, req.cmdid, hosts⟩ log
  order : s.past.Pairwise (· <+: ·)
  made : ∀ l ∈ s.past, l <+: s.dns.mapLog
  shown : ∀ k log, s.shown k = some log → log <+: s.dns.mapLog ∧ ∀ l ∈ s.past, log <+: l
  lbs : ∀ i k lb, (s.agent.lbs i).routeLbMap.lookup k = some lb → Fits edits t s.shown k lb

theorem inv_start {version : Option (Option ℤ)} {db : Db} {route : Route}
    (hnew : Route.new version (some db.routeData.rows) = some route) (edits : List Edit) (now : ℤ)
    (connected : Bool) : Inv edits db.routeData (start edits db route now connected) where
  dns := World.dated_start hnew edits now
  agent := PullNet.inv_start connected
  down := .nil
  held := fun _ _ h => by cases h
  order := .nil
  made := fun _ h => by cases h
  shown := fun _ _ h => by cases h
  lbs := fun i k lb h => by simp [start, PullNet.start, RouteLB.new] at h

/-- The service's own steps. -/
theorem Inv.dnsStep (h : Inv edits t s) {e : World.Event} {w : World} (hw : s.dns.step waitTime e = .ok w) :
    Inv edits t { s with dns := w } := by
  obtain ⟨hdated, hgrows⟩ := h.dns.step hw
  exact ⟨hdated, h.agent, h.down, h.held, h.order, fun l hl => (h.made l hl).trans hgrows,
    fun k log hk => ⟨(h.shown k log hk).1.trans hgrows, (h.shown k log hk).2⟩, h.lbs⟩

/-- When nothing is held, what is made now comes behind everything that was made before. -/
theorem Inv.made_now (h : Inv edits t s) (hheld : s.held = none) :
    (s.downLogs ++ [s.dns.mapLog]).Pairwise (· <+: ·) ∧
      (∀ l ∈ s.downLogs ++ [s.dns.mapLog], l <+: s.dns.mapLog) ∧
      ∀ k log, s.shown k = some log →
        log <+: s.dns.mapLog ∧ ∀ l ∈ s.downLogs ++ [s.dns.mapLog], log <+: l := by
  have hpast : s.past = s.downLogs := by
    unfold past
    rw [hheld]
    exact List.append_nil _
  have hmade := h.made
  have horder := h.order
  have hshown := h.shown
  rw [hpast] at hmade horder hshown
  have hlast : ∀ {P : List ℕ → Prop}, (∀ l ∈ s.downLogs, P l) → P s.dns.mapLog →
      ∀ l ∈ s.downLogs ++ [s.dns.mapLog], P l := by
    intro P hold hnow l hl
    rcases List.mem_append.1 hl with hl | hl
    · exact hold l hl
    · rw [List.mem_singleton.1 hl]
      exact hnow
  refine ⟨?_, hlast hmade (List.prefix_refl _), fun k log hk => ?_⟩
  · refine List.pairwise_append.2 ⟨horder, List.pairwise_singleton _ _, fun l hl m hm => ?_⟩
    rw [List.mem_singleton.1 hm]
    exact hmade l hl
  · obtain ⟨hnow, hold⟩ := hshown k log hk
    exact ⟨hnow, hlast hold hnow⟩

theorem Inv.lookUp (h : Inv edits t s) (walk : List UInt64) : Inv edits t (s.lookUp walk) := by
  unfold RouteNet.lookUp
  split
  swap
  · exact h
  rename_i req up hheld hup
  split
  swap
  · exact h
  rename_i hwalk
  obtain ⟨horder, hmade, hshown⟩ := h.made_now hheld
  refine ⟨h.dns, h.agent, h.down, ?_, horder, hmade, hshown, h.lbs⟩
  intro hosts log hlog
  obtain ⟨rfl, rfl⟩ := Prod.mk.inj (Option.some.inj hlog)
  exact ⟨req, up, hup, isSnapshot_walk h.dns.data hwalk.2⟩

/-- A step after which less is on the way, in the same order. -/
theorem Inv.fewer (h : Inv edits t s) {agent : PullNet} {held : Option (List Lbrss.HostInfo × List ℕ)}
    {logs : List (List ℕ)} (hagent : agent.Inv) (hlbs : agent.lbs = s.agent.lbs)
    (hdown : List.Forall₂ (IsSnapshot edits t) agent.down logs)
    (hheld : ∀ hosts log, held = some (hosts, log) → ∃ req up, agent.up = req :: up ∧
      IsSnapshot edits t ⟨req.modid, req.cmdid, hosts⟩ log)
    (hpast : (logs ++ (held.map (·.2)).toList).Sublist s.past) :
    Inv edits t { s with agent := agent, held := held, downLogs := logs } where
  dns := h.dns
  agent := hagent
  down := hdown
  held := hheld
  order := h.order.sublist hpast
  made := fun l hl => h.made l (hpast.subset hl)
  shown := fun k log hk => ⟨(h.shown k log hk).1, fun l hl => (h.shown k log hk).2 l (hpast.subset hl)⟩
  lbs := by
    rw [hlbs]
    exact h.lbs

theorem Inv.answer (h : Inv edits t s) (room : Bool) : Inv edits t (s.answer room) := by
  unfold RouteNet.answer
  rcases hheld : s.held with _ | ⟨hosts, log⟩
  · exact h
  obtain ⟨req, up, hup, hsnap⟩ := h.held hosts log hheld
  have hpast : s.past = s.downLogs ++ [log] := by
    unfold past
    rw [hheld]
    rfl
  have hserve : s.agent.serve hosts room = if room
      then { s.agent with up := up, down := s.agent.down ++ [⟨req.modid, req.cmdid, hosts⟩] }
      else { s.agent with up := up, lost := s.agent.lost ++ [req] } := by
    unfold PullNet.serve
    rw [hup]
  dsimp only
  rw [hserve]
  rcases room with _ | _
  · refine h.fewer (h.agent.refuse hup) rfl h.down (fun _ _ hno => by cases hno) ?_
    rw [hpast]
    exact List.sublist_append_of_sublist_left (by simp)
  · refine h.fewer (h.agent.serve hup) rfl (List.rel_append h.down (.cons hsnap .nil))
      (fun _ _ hno => by cases hno) ?_
    rw [hpast]
    show (s.downLogs ++ [log] ++ []).Sublist (s.downLogs ++ [log])
    rw [List.append_nil]

theorem Inv.push (h : Inv edits t s) (mod : UInt64) (walk : List UInt64) : Inv edits t (s.push mod walk) := by
  unfold RouteNet.push
  split
  swap
  · exact h
  rename_i hpush
  obtain ⟨hnone, -, hwalk⟩ := hpush
  have hheld : s.held = none := Option.isNone_iff_eq_none.1 hnone
  have hpast : s.downLogs ++ [s.dns.mapLog] ++ (s.held.map (·.2)).toList = s.downLogs ++ [s.dns.mapLog] := by
    rw [hheld]
    exact List.append_nil _
  obtain ⟨horder, hmade, hshown⟩ := h.made_now hheld
  rw [← hpast] at horder hmade hshown
  refine ⟨h.dns, h.agent.push _, List.rel_append h.down (.cons (isSnapshot_walk h.dns.data hwalk) .nil), ?_, horder,
    hmade, hshown, h.lbs⟩
  intro hosts log hlog
  dsimp only at hlog
  rw [hheld] at hlog
  cases hlog

/-- An event of the agent that leaves what the service has sent, and the request in front. -/
theorem Inv.keep (h : Inv edits t s) {a : PullNet} (hagent : a.Inv) (hdown : a.down = s.agent.down)
    (hup : ∀ req up, s.agent.up = req :: up → ∃ up', a.up = req :: up')
    (hlbs : ∀ i k lb, (a.lbs i).routeLbMap.lookup k = some lb → Fits edits t s.shown k lb) :
    Inv edits t { s with agent := a } where
  dns := h.dns
  agent := hagent
  down := by
    rw [hdown]
    exact h.down
  held := by
    intro hosts log hheld
    obtain ⟨req, up, hreq, hsnap⟩ := h.held hosts log hheld
    obtain ⟨up', hup'⟩ := hup req up hreq
    exact ⟨req, up', hup', hsnap⟩
  order := h.order
  made := h.made
  shown := h.shown
  lbs := hlbs

theorem Inv.api (h : Inv edits t s) {c : ApiCall} {i : Fin 3} {rl : RouteLB} {pulled : Option GetRouteRequest}
    (hslot : RouteLBs.slot c.index = some i) (hrun : c.run E (s.agent.lbs i) = .ok (rl, pulled)) :
    Inv edits t { s with agent := { s.agent with
      lbs := Function.update s.agent.lbs i rl, queue := s.agent.queue ++ pulled.toList } } := by
  refine h.keep (h.agent.api hslot hrun) rfl (fun req up hup => ⟨up, hup⟩) fun j k lb hl => ?_
  dsimp only at hl
  by_cases hj : j = i
  · subst hj
    rw [Function.update_self] at hl
    rcases run_current hrun hl with hnew | ⟨old, hold, hpair, hcur⟩
    · exact ⟨[], hnew, Or.inl rfl⟩
    · exact (h.lbs j k old hold).of_current hpair hcur rfl
  · rw [Function.update_of_ne hj] at hl
    exact h.lbs j k lb hl

theorem Inv.reset (h : Inv edits t s) {i : Fin 3} (hjob : s.agent.job = .resetting i) :
    Inv edits t { s with agent := { s.agent with
      lbs := Function.update s.agent.lbs i (s.agent.lbs i).resetLbStatus
      job := PullNet.resetFrom (i.val + 1) } } := by
  refine h.keep (h.agent.reset hjob) rfl (fun req up hup => ⟨up, hup⟩) fun j k lb hl => ?_
  dsimp only at hl
  by_cases hj : j = i
  · subst hj
    rw [Function.update_self, RouteLB.lookup_resetLbStatus] at hl
    obtain ⟨old, hold, rfl⟩ := Option.map_eq_some_iff.1 hl
    refine (h.lbs j k old hold).of_current ?_ (fun hosts hcur => ?_) rfl
    · unfold RouteLB.resetStatus
      split <;> rfl
    · unfold RouteLB.resetStatus
      split
      · exact hcur.status .new
      · exact hcur
  · rw [Function.update_of_ne hj] at hl
    exact h.lbs j k lb hl

/-- **Dealing with a response** shows its snapshot for its pair. -/
theorem Inv.receive (h : Inv edits t s) {now : ℤ} {junk : Addr → Junk} {rsp : GetRouteResponse}
    {rest : List GetRouteResponse} {lbs : RouteLBs} (hjob : s.agent.job = .idle) (hd : s.agent.down = rsp :: rest)
    (hrecv : RouteLBs.recvRoute E rsp now junk s.agent.lbs = .ok lbs) :
    Inv edits t { s.follow (.receive now junk) with agent := { s.agent with lbs := lbs, down := rest } } := by
  have hagent := h.agent.receive hd hrecv
  have hdown := h.down
  rw [hd] at hdown
  rcases hlogs : s.downLogs with _ | ⟨log, logs⟩
  · rw [hlogs] at hdown
    cases hdown
  rw [hlogs] at hdown
  obtain ⟨hsnap, hrest⟩ := List.forall₂_cons.1 hdown
  have hfollow : s.follow (.receive now junk) = { s with
      downLogs := logs, shown := Function.update s.shown (pairKey (PullNet.pairOf rsp)) (some log) } := by
    unfold follow
    rw [hjob, hd, hlogs]
  rw [hfollow]
  have hpast : s.past = log :: (logs ++ (s.held.map (·.2)).toList) := by
    unfold past
    rw [hlogs]
    rfl
  have horder := h.order
  have hmade := h.made
  rw [hpast] at horder hmade
  obtain ⟨hfirst, horder⟩ := List.pairwise_cons.1 horder
  refine ⟨h.dns, hagent, hrest, h.held, horder, fun l hl => hmade l (List.mem_cons_of_mem _ hl), ?_, ?_⟩
  · intro k old hk
    dsimp only at hk
    by_cases hkey : k = pairKey (PullNet.pairOf rsp)
    · rw [hkey, Function.update_self] at hk
      obtain rfl := Option.some.inj hk
      exact ⟨hmade log List.mem_cons_self, hfirst⟩
    · rw [Function.update_of_ne hkey] at hk
      obtain ⟨hnow, hold⟩ := h.shown k old hk
      rw [hpast] at hold
      exact ⟨hnow, fun l hl => hold l (List.mem_cons_of_mem _ hl)⟩
  · intro i k lb hl
    dsimp only
    rcases recvRoute_current h.agent.placed hrecv hl with ⟨hkey, hold⟩ | ⟨rfl, hpair, old, hold, hcur⟩
    · exact (h.lbs i k lb hold).of_current rfl (fun _ => id) (Function.update_of_ne hkey _ _)
    · obtain ⟨hosts, hlb, -⟩ := h.lbs i _ old hold
      refine ⟨rsp.host, hcur hosts hlb, Or.inr ⟨log, Function.update_self .., ?_⟩⟩
      rw [hpair]
      exact hsnap

/-- An event that cannot occur has no part in the history. -/
theorem follow_blocked {e : PullNet.Event} (he : s.agent.Blocked e) : s.follow e = s := by
  unfold follow
  split
  · split
    · rename_i rsp down log logs hjob hdown hlogs
      have hnil : s.agent.down = [] := he hjob
      rw [hdown] at hnil
      cases hnil
    · rfl
  · exact if_neg he
  · rfl

theorem Inv.agentStep (h : Inv edits t s) {e : PullNet.Event} (hserve : ∀ hosts room, e ≠ .serve hosts room)
    (hpush : ∀ rsp, e ≠ .push rsp) {a : PullNet} (hs : s.agent.step E e = .ok a) :
    Inv edits t { s.follow e with agent := a } := by
  have hagent := h.agent.step hs
  cases PullNet.stepped hs with
  | blocked he =>
    rw [follow_blocked he]
    exact h
  | asked hslot hrun => exact h.api hslot hrun
  | took _ => exact h.keep hagent rfl (fun req up hup => ⟨up, hup⟩) h.lbs
  | emptied _ => exact h.keep hagent rfl (fun req up hup => ⟨up, hup⟩) h.lbs
  | @sent room msg msgs _ =>
    -- the request goes behind the others
    refine h.keep hagent rfl (fun req up hup => ⟨up ++ [msg], ?_⟩) h.lbs
    dsimp only
    rw [hup, List.cons_append]
  | dropped _ => exact h.keep hagent rfl (fun req up hup => ⟨up, hup⟩) h.lbs
  | connected _ _ => exact h.keep hagent rfl (fun req up hup => ⟨up, hup⟩) h.lbs
  | reset hjob => exact h.reset hjob
  | received hjob hdown hrecv => exact h.receive hjob hdown hrecv
  | served _ => exact absurd rfl (hserve _ _)
  | refused _ => exact absurd rfl (hserve _ _)
  | pushed _ => exact absurd rfl (hpush _)
  | closed hjob hconn =>
    have hclose : s.agent.job = .idle ∧ s.agent.connected = true := ⟨hjob, hconn⟩
    unfold follow
    dsimp only
    rw [if_pos hclose]
    exact h.fewer hagent rfl .nil (fun _ _ hno => by cases hno) (List.nil_sublist _)

/-- The agent's side of a step. -/
theorem step_agent {e : PullNet.Event} (hs : s.step E waitTime (.agent e) = .ok u) :
    u = s ∨ (∀ hosts room, e ≠ .serve hosts room) ∧ (∀ rsp, e ≠ .push rsp) ∧
      ∃ a, s.agent.step E e = .ok a ∧ u = { s.follow e with agent := a } := by
  have hgo : (match s.agent.step E e with
      | .error f => (.error f : Except DnsClientStop RouteNet)
      | .ok a => .ok { s.follow e with agent := a }) = .ok u →
      ∃ a, s.agent.step E e = .ok a ∧ u = { s.follow e with agent := a } := by
    intro hu
    rcases ha : s.agent.step E e with f | a
    · rw [ha] at hu
      cases hu
    · rw [ha] at hu
      exact ⟨a, rfl, (Except.ok.inj hu).symm⟩
  cases e with
  | serve hosts room => exact Or.inl (Except.ok.inj hs).symm
  | push rsp => exact Or.inl (Except.ok.inj hs).symm
  | api c => exact Or.inr ⟨by simp, by simp, hgo hs⟩
  | takeQueue => exact Or.inr ⟨by simp, by simp, hgo hs⟩
  | send room => exact Or.inr ⟨by simp, by simp, hgo hs⟩
  | connect => exact Or.inr ⟨by simp, by simp, hgo hs⟩
  | reset => exact Or.inr ⟨by simp, by simp, hgo hs⟩
  | receive now junk => exact Or.inr ⟨by simp, by simp, hgo hs⟩
  | close written => exact Or.inr ⟨by simp, by simp, hgo hs⟩

/-- **One step keeps the invariant.** -/
theorem Inv.step (h : Inv edits t s) {e : Event} (hs : s.step E waitTime e = .ok u) : Inv edits t u := by
  cases e with
  | dns e =>
    unfold RouteNet.step at hs
    dsimp only at hs
    rcases hw : s.dns.step waitTime e with f | w
    · exact f.elim
    · rw [hw] at hs
      obtain rfl := Except.ok.inj hs
      exact h.dnsStep hw
  | lookUp walk =>
    obtain rfl := Except.ok.inj hs
    exact h.lookUp walk
  | answer room =>
    obtain rfl := Except.ok.inj hs
    exact h.answer room
  | push mod walk =>
    obtain rfl := Except.ok.inj hs
    exact h.push mod walk
  | agent e =>
    rcases step_agent hs with rfl | ⟨hserve, hpush, a, ha, rfl⟩
    · exact h
    · exact h.agentStep hserve hpush ha

/-! ## Runs -/

/-- **What a step does to `RouteData` and to what is shown.** -/
theorem step_frame {e : Event} (hs : s.step E waitTime e = .ok u) :
    (u.dns = s.dns ∨ ∃ d, s.dns.step waitTime d = .ok u.dns) ∧
      (u.shown = s.shown ∨ ∃ k log logs, s.downLogs = log :: logs ∧
        u.shown = Function.update s.shown k (some log)) := by
  cases e with
  | dns e =>
    unfold RouteNet.step at hs
    dsimp only at hs
    rcases hw : s.dns.step waitTime e with f | w
    · exact f.elim
    · rw [hw] at hs
      obtain rfl := Except.ok.inj hs
      exact ⟨Or.inr ⟨e, hw⟩, Or.inl rfl⟩
  | lookUp walk =>
    obtain rfl := Except.ok.inj hs
    unfold RouteNet.lookUp
    split
    · split <;> exact ⟨Or.inl rfl, Or.inl rfl⟩
    · exact ⟨Or.inl rfl, Or.inl rfl⟩
  | answer room =>
    obtain rfl := Except.ok.inj hs
    unfold RouteNet.answer
    split <;> exact ⟨Or.inl rfl, Or.inl rfl⟩
  | push mod walk =>
    obtain rfl := Except.ok.inj hs
    unfold RouteNet.push
    split <;> exact ⟨Or.inl rfl, Or.inl rfl⟩
  | agent e =>
    rcases step_agent hs with rfl | ⟨-, -, a, -, rfl⟩
    · exact ⟨Or.inl rfl, Or.inl rfl⟩
    · show ((s.follow e).dns = s.dns ∨ _) ∧ ((s.follow e).shown = s.shown ∨ _)
      unfold follow
      split
      · split
        · rename_i rsp rest log logs _ _ hlogs
          exact ⟨Or.inl rfl, Or.inr ⟨_, log, logs, hlogs, rfl⟩⟩
        · exact ⟨Or.inl rfl, Or.inl rfl⟩
      · split <;> exact ⟨Or.inl rfl, Or.inl rfl⟩
      · exact ⟨Or.inl rfl, Or.inl rfl⟩

/-- What is shown for a pair gives way to something later only. -/
theorem Inv.shown_step (h : Inv edits t s) {e : Event} (hs : s.step E waitTime e = .ok u) {k : UInt64}
    {log : List ℕ} (hk : s.shown k = some log) : ∃ log', u.shown k = some log' ∧ log <+: log' := by
  rcases (step_frame hs).2 with heq | ⟨k', new, logs, hlogs, heq⟩
  · exact ⟨log, by rw [heq, hk], List.prefix_refl _⟩
  · rw [heq]
    by_cases hkey : k = k'
    · have hmem : new ∈ s.past := by
        unfold past
        rw [hlogs]
        exact List.mem_append_left _ List.mem_cons_self
      rw [hkey, Function.update_self]
      exact ⟨new, rfl, (h.shown k log hk).2 new hmem⟩
    · rw [Function.update_of_ne hkey]
      exact ⟨log, hk, List.prefix_refl _⟩

/-- A step writes `RouteData` once at most. -/
theorem log_grows (s : RouteNet) (e : Event) (u : RouteNet) (hs : s.step E waitTime e = .ok u) :
    u.dns.hist.log = s.dns.hist.log ∨ ∃ i, u.dns.hist.log = s.dns.hist.log ++ [i] := by
  rcases (step_frame hs).1 with heq | ⟨d, hd⟩
  · exact Or.inl (by rw [heq])
  · exact World.log_step hd

/-- **What the agent answers for a pair is what `RouteData` says**: a list of routes that is not
empty has exactly the hosts of its rows, and a host that is picked is one of them. -/
def Answers (E : Env) (a : PullNet) (req : GetRouteRequest) (t : RouteTable) : Prop :=
  ∀ i, home req = some i →
    (∀ now junk rl reply, (a.lbs i).getRoute E req.modid req.cmdid now junk = .ok (rl, reply) →
      reply.host ≠ [] → ∀ x, x ∈ reply.host ↔ t.Names req x) ∧
    ∀ now junk rl reply x, (a.lbs i).getHost E req.modid req.cmdid now junk = .ok (rl, reply) →
      reply.rsp.host = some x → t.Names req x

/-- **The answers are those of the snapshot that is shown.** -/
theorem Inv.answers (h : Inv edits t s) (req : GetRouteRequest) :
    Answers E s.agent req (World.replay edits t ((s.shown (pairKey req)).getD [])) := by
  have hfits : ∀ i lb, (s.agent.lbs i).routeLbMap.lookup (pairKey req) = some lb → ∃ hosts, lb.Current hosts ∧
      (hosts = [] ∨ ∀ x, x ∈ hosts ↔ (World.replay edits t ((s.shown (pairKey req)).getD [])).Names req x) := by
    intro i lb hl
    obtain ⟨hosts, hcur, hfit⟩ := h.lbs i _ lb hl
    refine ⟨hosts, hcur, hfit.imp id ?_⟩
    rintro ⟨log, hlog, hsnap⟩
    rw [hlog, Option.getD_some]
    rw [← pairKey_inj (h.agent.placed i _ lb hl).1] at hsnap
    exact hsnap
  intro i _
  constructor
  · intro now junk rl reply hroute hne x
    have hgot := RouteLB.gotRoute (E := E) req.modid req.cmdid now junk (s.agent.lbs i)
    rw [hroute] at hgot
    cases hgot with
    | unknown _ => exact absurd rfl hne
    | routes hl hm =>
      obtain ⟨hosts, hcur, hfit⟩ := hfits i _ hl
      have hroutes := hcur.routes hm
      rcases hfit with rfl | hfit
      · exact absurd (List.eq_nil_iff_forall_not_mem.2 fun y hy => by cases (hroutes y).1 hy) hne
      · exact (hroutes x).trans (hfit x)
  · intro now junk rl reply x hhost hx
    have hgot := RouteLB.gotHost (E := E) req.modid req.cmdid now junk (s.agent.lbs i)
    rw [hhost] at hgot
    cases hgot with
    | unknown _ => cases hx
    | waiting _ _ _ => cases hx
    | picked hl _ hp =>
      obtain ⟨hosts, hcur, hfit⟩ := hfits i _ hl
      have hmem := hcur.served (LoadBalance.picked hp) hx
      rcases hfit with rfl | hfit
      · cases hmem
      · exact (hfit x).1 hmem

/-- **The agent's answers are snapshots of `RouteData`, and never go back.** In every run, whatever
fails, is lost or is pushed: at any two moments of the run, what the agent answers for a pair is
what `RouteData` said at two moments that lie before them, the one for the later answer not before
the one for the earlier. -/
theorem answers_are_snapshots (E : Env) (waitTime : ℤ) (edits : List Edit) (db : Db) (now : ℤ)
    (connected : Bool) (version : Option (Option ℤ)) {route : Route}
    (hnew : Route.new version (some db.routeData.rows) = some route) {es fs : List Event} {s u : RouteNet}
    (hs : Runs.run (step E waitTime) (start edits db route now connected) es = .ok s)
    (hu : Runs.run (step E waitTime) s fs = .ok u) (req : GetRouteRequest) :
    ∃ m n v w, m <+: es ∧ m <+: n ∧ n <+: es ++ fs ∧
      Runs.run (step E waitTime) (start edits db route now connected) m = .ok v ∧
      Runs.run (step E waitTime) (start edits db route now connected) n = .ok w ∧
      Answers E s.agent req v.dns.db.routeData ∧ Answers E u.agent req w.dns.db.routeData := by
  have hinv : ∀ {es : List Event} {s : RouteNet},
      Runs.run (step E waitTime) (start edits db route now connected) es = .ok s → Inv edits db.routeData s :=
    fun hrun => Runs.run_inv (I := Inv edits db.routeData) (fun _ _ _ ht hu => ht.step hu)
      (inv_start hnew edits now connected) hrun
  have hsi := hinv hs
  have hui := hinv (Runs.run_append_ok.2 ⟨s, hs, hu⟩)
  -- every log that is shown is a prefix of what is written
  have hwritten : ∀ {x : RouteNet}, Inv edits db.routeData x →
      (x.shown (pairKey req)).getD [] <+: x.dns.hist.log := by
    intro x hx
    rcases hlog : x.shown (pairKey req) with _ | log
    · exact List.nil_prefix
    · exact (hx.shown _ log hlog).1.trans (hx.dns.older.trans hx.dns.loaded)
  have hlater : (s.shown (pairKey req)).getD [] <+: (u.shown (pairKey req)).getD [] := by
    rcases hlog : s.shown (pairKey req) with _ | log
    · exact List.nil_prefix
    · have hrun := Runs.run_inv (I := fun x => Inv edits db.routeData x ∧
          ∃ log', x.shown (pairKey req) = some log' ∧ log <+: log') ?_ ⟨hsi, log, hlog, List.prefix_refl _⟩ hu
      · obtain ⟨-, log', hlog', hle⟩ := hrun
        rw [hlog']
        exact hle
      · rintro x e y ⟨hx, l, hl, hle⟩ hy
        obtain ⟨l', hl', hle'⟩ := hx.shown_step hy hl
        exact ⟨hx.step hy, l', hl', hle.trans hle'⟩
  obtain ⟨m, n, v, w, hm, hmn, hn, hv, hw, hvlog, hwlog⟩ :=
    Runs.exists_moments (f := fun x : RouteNet => x.dns.hist.log) rfl log_grows hs hu (hwritten hsi)
      (hwritten hui) hlater
  refine ⟨m, n, v, w, hm, hmn, hn, hv, hw, ?_, ?_⟩
  · rw [(hinv hv).dns.tables.table]
    rw [hvlog]
    exact hsi.answers req
  · rw [(hinv hw).dns.tables.table]
    rw [hwlog]
    exact hui.answers req

/-- A route is added, loaded and pulled. -/
def pulledOnce : List Event :=
  [.dns (.web 0), .dns (.web 0), .dns (.web 0), .dns (.poll true), .dns (.poll true), .dns (.poll true),
    .dns (.poll true), .agent (.api (.getRoute 1 1 0 0)), .agent .takeQueue, .agent (.send true),
    .agent (.send true), .lookUp [21474836560], .answer true, .agent (.receive 0 fun _ => ⟨0, 0⟩)]

/-- A second route that nobody has announced yet is not answered. -/
theorem answers_are_snapshots_unannounced : ∃ s u,
    Runs.run (step .shipped 10) (start [.add 1 1 5 80, .add 1 1 6 80] World.emptyDb World.emptyRoute 100 true)
      pulledOnce = .ok s ∧
    Runs.run (step .shipped 10) s [.dns (.web 1)] = .ok u ∧
    ((u.agent.lbs 2).getRoute .shipped 1 1 0 0).toOption.map (·.2.host) = some [⟨5, 80⟩] ∧
    ∃ m n v w, m <+: pulledOnce ∧ m <+: n ∧ n <+: pulledOnce ++ [.dns (.web 1)] ∧
      Runs.run (step .shipped 10) (start [.add 1 1 5 80, .add 1 1 6 80] World.emptyDb World.emptyRoute 100 true)
        m = .ok v ∧
      Runs.run (step .shipped 10) (start [.add 1 1 5 80, .add 1 1 6 80] World.emptyDb World.emptyRoute 100 true)
        n = .ok w ∧
      Answers .shipped s.agent ⟨1, 1⟩ v.dns.db.routeData ∧ Answers .shipped u.agent ⟨1, 1⟩ w.dns.db.routeData := by
  obtain ⟨u, hall, hanswer⟩ := Runs.ok_of_toOption
    (x := Runs.run (step .shipped 10)
      (start [.add 1 1 5 80, .add 1 1 6 80] World.emptyDb World.emptyRoute 100 true) (pulledOnce ++ [.dns (.web 1)]))
    (g := fun u => ((u.agent.lbs 2).getRoute .shipped 1 1 0 0).toOption.map (·.2.host))
    (b := some [⟨5, 80⟩]) (by decide +kernel)
  obtain ⟨s, hs, hu⟩ := Runs.run_append_ok.1 hall
  have hnew : Route.new (some (some 0)) (some World.emptyDb.routeData.rows) = some World.emptyRoute := rfl
  exact ⟨s, u, hs, hu, hanswer,
    answers_are_snapshots .shipped 10 _ World.emptyDb 100 true _ hnew hs hu ⟨1, 1⟩⟩

end RouteNet

end LbRpc
