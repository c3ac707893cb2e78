import LbRpc.Agent.PullNet
import LbRpc.Proof.Packing
import LbRpc.Proof.Pulling
import LbRpc.Proof.RouteLbStep
import LbRpc.Proof.StatusReport

/-!
# No pull is forgotten

A load balancer with status `PULLING` does not pull again, so its request must not vanish.

* `asked`: what a request of the API does to a `RouteLB` and to `dns_queue`.
* `stepped`: what one step can do.
* `Inv`: each load balancer is at its place, and where `conn_init` is not about to reset it,
  its request is still somewhere.
* `no_pull_forgotten`: this holds over any interleaving.
* `no_second_pull`: a pair that was pulled is not pulled again before a response for it
  is dealt with or its load balancer is reset.
-/

namespace LbRpc

open Lbrss

variable {E : Env}

open LoadBalance RouteLB

namespace ApiCall

/-- The pair that a request of the API names. -/
def pair : ApiCall → GetRouteRequest
  | .getHost modid cmdid _ _ => ⟨modid, cmdid⟩
  | .getRoute modid cmdid _ _ => ⟨modid, cmdid⟩
  | .report req _ _ _ => ⟨req.modid, req.cmdid⟩

end ApiCall

/-- The key of a pair. -/
def pairKey (req : GetRouteRequest) : UInt64 := key req.modid req.cmdid

/-- **What a request of the API does**: to the load balancer of its pair, and to `dns_queue`. -/
inductive Asked (req : GetRouteRequest) (rl : RouteLB) : RouteLB → Option GetRouteRequest → Prop
  | same : Asked req rl rl none
  | kept {lb lb'} : rl.routeLbMap.lookup (pairKey req) = some lb → lb'.pair = lb.pair → lb'.status = lb.status →
      Asked req rl (rl.set (pairKey req) lb') none
  | again {lb lb'} : rl.routeLbMap.lookup (pairKey req) = some lb → lb'.pair = lb.pair → lb.status = .new →
      lb'.status = .pulling → Asked req rl (rl.set (pairKey req) lb') (some lb.pair)
  | first {lb'} : rl.routeLbMap.lookup (pairKey req) = none → lb'.pair = req → lb'.status = .pulling →
      Asked req rl (rl.set (pairKey req) lb') (some req)

/-- `repull` after a call that has left the pair and the status. -/
theorem asked_repull (req : GetRouteRequest) {rl : RouteLB} {lb lb' : LoadBalance} (now : ℤ)
    (hl : rl.routeLbMap.lookup (pairKey req) = some lb) (hp : lb'.pair = lb.pair) (hs : lb'.status = lb.status) :
    Asked req rl (rl.set (pairKey req) (repull E now lb').1) (repull E now lb').2 := by
  unfold repull
  by_cases h : lb'.status = .new ∧ E.config.updateTimeout < now - lb'.lastUpdateTime
  · rw [if_pos h]
    have hpull : lb'.pull.2 = lb.pair := hp
    show Asked req rl (rl.set (pairKey req) lb'.pull.1) (some lb'.pull.2)
    rw [hpull]
    exact .again hl hp (hs ▸ h.1) rfl
  · rw [if_neg h]
    exact .kept hl hp hs

theorem asked {c : ApiCall} {rl rl' : RouteLB} {pulled : Option GetRouteRequest}
    (h : c.run E rl = .ok (rl', pulled)) : Asked c.pair rl rl' pulled := by
  cases c with
  | getHost modid cmdid now junk =>
    obtain ⟨⟨r, reply⟩, hr, heq⟩ := map_ok h
    obtain ⟨rfl, rfl⟩ := Prod.mk.inj heq
    have hgot := gotHost (E := E) modid cmdid now junk rl
    rw [hr] at hgot
    cases hgot with
    | unknown hl => exact Asked.first hl rfl rfl
    | waiting _ _ _ => exact .same
    | picked hl _ hp =>
      exact asked_repull ⟨modid, cmdid⟩ now hl (picked hp).pair (picked hp).frame.2.2.1
  | getRoute modid cmdid now junk =>
    obtain ⟨⟨r, reply⟩, hr, heq⟩ := map_ok h
    obtain ⟨rfl, rfl⟩ := Prod.mk.inj heq
    have hgot := gotRoute (E := E) modid cmdid now junk rl
    rw [hr] at hgot
    cases hgot with
    | unknown hl => exact Asked.first hl rfl rfl
    | routes hl _ => exact asked_repull ⟨modid, cmdid⟩ now hl rfl rfl
  | report req now ts cts =>
    obtain ⟨⟨r, reply⟩, hr, heq⟩ := map_ok h
    obtain ⟨rfl, rfl⟩ := Prod.mk.inj heq
    have hrep := reportedHost (E := E) req now ts cts rl
    rw [hr] at hrep
    cases hrep with
    | unknown _ => exact .same
    | reported hl hp _ =>
      obtain ⟨hpair, hstatus⟩ := report_pair hp
      exact Asked.kept hl hpair hstatus

theorem pairKey_inj {req req' : GetRouteRequest} (h : pairKey req = pairKey req') : req = req' := by
  obtain ⟨hmodid, hcmdid⟩ := key_inj h
  cases req
  cases req'
  exact congrArg₂ GetRouteRequest.mk hmodid hcmdid

/-- What a lookup finds behind `set`. -/
theorem lookup_set {rl : RouteLB} {k k' : UInt64} {lb lb' : LoadBalance}
    (h : (rl.set k lb).routeLbMap.lookup k' = some lb') :
    (k' = k ∧ lb' = lb) ∨ (k' ≠ k ∧ rl.routeLbMap.lookup k' = some lb') := by
  unfold RouteLB.set at h
  by_cases hk : k' = k
  · subst hk
    rw [AList.lookup_insert] at h
    exact Or.inl ⟨rfl, (Option.some.inj h).symm⟩
  · rw [AList.lookup_insert_ne hk] at h
    exact Or.inr ⟨hk, h⟩

/-- **What was there, and what is new.** -/
theorem Asked.lookup {req : GetRouteRequest} {rl rl' : RouteLB} {pulled : Option GetRouteRequest}
    (h : Asked req rl rl' pulled) {k : UInt64} {lb' : LoadBalance} (hl : rl'.routeLbMap.lookup k = some lb') :
    (∃ lb, rl.routeLbMap.lookup k = some lb ∧ lb'.pair = lb.pair ∧
        (lb'.status = .pulling → lb.status = .pulling ∨ pulled = some lb.pair)) ∨
      (k = pairKey req ∧ lb'.pair = req ∧ pulled = some req) := by
  cases h with
  | same => exact Or.inl ⟨lb', hl, rfl, Or.inl⟩
  | kept hold hpair hstatus =>
    rcases lookup_set hl with ⟨rfl, rfl⟩ | ⟨-, hl⟩
    · exact Or.inl ⟨_, hold, hpair, fun hp => Or.inl (hstatus ▸ hp)⟩
    · exact Or.inl ⟨lb', hl, rfl, Or.inl⟩
  | again hold hpair _ _ =>
    rcases lookup_set hl with ⟨rfl, rfl⟩ | ⟨-, hl⟩
    · exact Or.inl ⟨_, hold, hpair, fun _ => Or.inr rfl⟩
    · exact Or.inl ⟨lb', hl, rfl, Or.inl⟩
  | first _ hpair _ =>
    rcases lookup_set hl with ⟨rfl, rfl⟩ | ⟨-, hl⟩
    · exact Or.inr ⟨rfl, hpair, rfl⟩
    · exact Or.inl ⟨lb', hl, rfl, Or.inl⟩

/-- The shard of a pair. -/
def home (req : GetRouteRequest) : Option (Fin 3) := RouteLBs.slot (shard req.modid req.cmdid)

theorem home_pair (c : ApiCall) : RouteLBs.slot c.index = home c.pair := by
  cases c <;> rfl

/-- Every load balancer is under the key of its pair, in the shard of its pair. -/
def Placed (lbs : RouteLBs) : Prop :=
  ∀ i k lb, (lbs i).routeLbMap.lookup k = some lb → k = pairKey lb.pair ∧ home lb.pair = some i

/-- **What dealing with a response does**: it changes one entry of one shard. -/
theorem recvRoute_ok {lbs lbs' : RouteLBs} {rsp : GetRouteResponse} {now : ℤ} {junk : Addr → Junk}
    (h : RouteLBs.recvRoute E rsp now junk lbs = .ok lbs') :
    ∃ i, home (PullNet.pairOf rsp) = some i ∧ (∀ j, j ≠ i → lbs' j = lbs j) ∧
      (∀ k, k ≠ pairKey (PullNet.pairOf rsp) →
        (lbs' i).routeLbMap.lookup k = (lbs i).routeLbMap.lookup k) ∧
      ∀ lb, (lbs' i).routeLbMap.lookup (pairKey (PullNet.pairOf rsp)) = some lb → lb.status = .new ∧
        ∃ old, (lbs i).routeLbMap.lookup (pairKey (PullNet.pairOf rsp)) = some old ∧ lb.pair = old.pair := by
  unfold RouteLBs.recvRoute at h
  rcases hslot : RouteLBs.slot (dealRecvRouteIndex rsp.modid rsp.cmdid) with _ | i
  · rw [hslot] at h
    cases h
  rw [hslot] at h
  dsimp only at h
  rcases hu : (lbs i).updateHost E rsp.modid rsp.cmdid now junk rsp with f | rl
  · rw [hu] at h
    cases h
  rw [hu] at h
  obtain rfl := Except.ok.inj h
  refine ⟨i, hslot, fun j hj => Function.update_of_ne hj _ _, ?_⟩
  rw [Function.update_self]
  have hupd := updatedHost (E := E) rsp.modid rsp.cmdid now junk rsp (lbs i)
  rw [hu] at hupd
  cases hupd with
  | unknown hnone =>
    refine ⟨fun _ _ => rfl, fun lb hl => ?_⟩
    have hl' : (lbs i).routeLbMap.lookup (key rsp.modid rsp.cmdid) = some lb := hl
    rw [hnone] at hl'
    cases hl'
  | erased _ _ =>
    refine ⟨fun k hk => AList.lookup_erase_ne hk, fun lb hl => ?_⟩
    have hl' : ((lbs i).routeLbMap.erase (key rsp.modid rsp.cmdid)).lookup (key rsp.modid rsp.cmdid) = some lb := hl
    rw [AList.lookup_erase] at hl'
    cases hl'
  | updated hold _ hup =>
    obtain ⟨hpair, hstatus⟩ := update_pair hup
    refine ⟨fun k hk => AList.lookup_insert_ne hk, fun lb hl => ?_⟩
    rcases lookup_set hl with ⟨-, rfl⟩ | ⟨hk, -⟩
    · exact ⟨hstatus, _, hold, hpair⟩
    · exact absurd rfl hk

/-- Load balancers of other pairs are left as they were, and the one of the response's pair, if
it is still there, has status `NEW`. -/
theorem recvRoute_entry {lbs lbs' : RouteLBs} {rsp : GetRouteResponse} {now : ℤ} {junk : Addr → Junk} (hplaced : Placed lbs)
    (h : RouteLBs.recvRoute E rsp now junk lbs = .ok lbs') (j : Fin 3) (k : UInt64) (lb : LoadBalance)
    (hl : (lbs' j).routeLbMap.lookup k = some lb) :
    ((lbs j).routeLbMap.lookup k = some lb ∧ lb.pair ≠ PullNet.pairOf rsp) ∨
      (lb.status = .new ∧ ∃ old, (lbs j).routeLbMap.lookup k = some old ∧ lb.pair = old.pair) := by
  obtain ⟨i, hhome, hshards, hkeys, hentry⟩ := recvRoute_ok h
  by_cases hj : j = i
  · subst hj
    by_cases hk : k = pairKey (PullNet.pairOf rsp)
    · subst hk
      exact Or.inr (hentry lb hl)
    · rw [hkeys k hk] at hl
      refine Or.inl ⟨hl, fun hpair => hk ?_⟩
      rw [← hpair]
      exact (hplaced j k lb hl).1
  · rw [hshards j hj] at hl
    refine Or.inl ⟨hl, fun hpair => hj ?_⟩
    have hhere := (hplaced j k lb hl).2
    rw [hpair, hhome] at hhere
    exact (Option.some.inj hhere).symm

/-! ## What one step can do -/

namespace PullNet

variable {s u : PullNet}

/-- The event cannot occur. -/
def Blocked (s : PullNet) : Event → Prop
  | .api _ => False
  | .takeQueue => s.job ≠ .idle
  | .send _ => ∀ msgs, s.job ≠ .sending msgs
  | .connect => ¬ (s.job = .idle ∧ s.connected = false)
  | .reset => ∀ i, s.job ≠ .resetting i
  | .receive _ _ => s.job = .idle → s.down = []
  | .serve _ _ => s.connected = true → s.up = []
  | .push _ => s.connected = false
  | .close _ => ¬ (s.job = .idle ∧ s.connected = true)

/-- **What one step can do.** -/
inductive Stepped (E : Env) (s : PullNet) : Event → PullNet → Prop
  | blocked {e : Event} : s.Blocked e → Stepped E s e s
  | asked {c i rl pulled} : RouteLBs.slot c.index = some i → c.run E (s.lbs i) = .ok (rl, pulled) →
      Stepped E s (.api c) { s with lbs := Function.update s.lbs i rl, queue := s.queue ++ pulled.toList }
  | took : s.job = .idle → Stepped E s .takeQueue { s with job := .sending s.queue, queue := [] }
  | emptied {room} : s.job = .sending [] → Stepped E s (.send room) { s with job := .idle }
  | sent {room req msgs} : s.job = .sending (req :: msgs) →
      Stepped E s (.send room) { s with job := .sending msgs, up := s.up ++ [req] }
  | dropped {room req msgs} : s.job = .sending (req :: msgs) →
      Stepped E s (.send room) { s with job := .sending msgs, lost := s.lost ++ [req] }
  | connected : s.job = .idle → s.connected = false →
      Stepped E s .connect { s with job := resetFrom 0, connected := true, lost := [] }
  | reset {i} : s.job = .resetting i → Stepped E s .reset
      { s with lbs := Function.update s.lbs i (s.lbs i).resetLbStatus, job := resetFrom (i.val + 1) }
  | received {now junk rsp down lbs} : s.job = .idle → s.down = rsp :: down →
      RouteLBs.recvRoute E rsp now junk s.lbs = .ok lbs →
      Stepped E s (.receive now junk) { s with lbs := lbs, down := down }
  | served {hosts room req up} : s.up = req :: up →
      Stepped E s (.serve hosts room) { s with up := up, down := s.down ++ [⟨req.modid, req.cmdid, hosts⟩] }
  | refused {hosts room req up} : s.up = req :: up →
      Stepped E s (.serve hosts room) { s with up := up, lost := s.lost ++ [req] }
  | pushed {rsp} : s.connected = true → Stepped E s (.push rsp) { s with down := s.down ++ [rsp] }
  | closed {written} : s.job = .idle → s.connected = true → Stepped E s (.close written)
      { s with
        connected := false
        up := s.up.drop written
        down := []
        lost := s.lost ++ s.up.take written ++ s.down.map pairOf }

theorem stepped {e : Event} (hs : s.step E e = .ok u) : Stepped E s e u := by
  cases e with
  | api c =>
    have hs' : s.api E c = .ok u := hs
    unfold PullNet.api at hs'
    rcases hslot : RouteLBs.slot c.index with _ | i
    · rw [hslot] at hs'
      cases hs'
    rw [hslot] at hs'
    dsimp only at hs'
    rcases hrun : c.run E (s.lbs i) with f | ⟨rl, pulled⟩
    · rw [hrun] at hs'
      cases hs'
    rw [hrun] at hs'
    obtain rfl := Except.ok.inj hs'
    exact .asked hslot hrun
  | takeQueue =>
    unfold PullNet.step at hs
    dsimp only at hs
    split at hs <;> obtain rfl := Except.ok.inj hs
    · rename_i hjob
      exact .took hjob
    · rename_i hjob
      exact .blocked hjob
  | send room =>
    obtain rfl := Except.ok.inj hs
    unfold PullNet.send
    split
    · rename_i hjob
      exact .emptied hjob
    · rename_i req msgs hjob
      split
      · exact .sent hjob
      · exact .dropped hjob
    · rename_i hnil hcons
      refine .blocked fun msgs hjob => ?_
      cases msgs with
      | nil => exact hnil hjob
      | cons req msgs => exact hcons req msgs hjob
  | connect =>
    unfold PullNet.step at hs
    dsimp only at hs
    split at hs <;> obtain rfl := Except.ok.inj hs
    · rename_i hconn
      exact .connected hconn.1 hconn.2
    · rename_i hconn
      exact .blocked hconn
  | reset =>
    obtain rfl := Except.ok.inj hs
    unfold PullNet.reset
    split
    · rename_i i hjob
      exact .reset hjob
    · rename_i hjob
      exact .blocked hjob
  | receive now junk =>
    have hs' : s.receive E now junk = .ok u := hs
    unfold PullNet.receive at hs'
    split at hs'
    · rename_i rsp down hjob hdown
      rcases hrecv : RouteLBs.recvRoute E rsp now junk s.lbs with f | lbs
      · rw [hrecv] at hs'
        cases hs'
      rw [hrecv] at hs'
      obtain rfl := Except.ok.inj hs'
      exact .received hjob hdown hrecv
    · rename_i hnot
      obtain rfl := Except.ok.inj hs'
      refine .blocked fun hjob => ?_
      rcases hdown : s.down with _ | ⟨rsp, down⟩
      · rfl
      · exact absurd hdown (hnot rsp down hjob)
  | serve hosts room =>
    unfold PullNet.step at hs
    dsimp only at hs
    split at hs <;> obtain rfl := Except.ok.inj hs
    · unfold PullNet.serve
      split
      · rename_i hup
        exact .blocked fun _ => hup
      · rename_i req up hup
        split
        · exact .served hup
        · exact .refused hup
    · rename_i hconn
      exact .blocked fun hyes => absurd hyes hconn
  | push rsp =>
    unfold PullNet.step at hs
    dsimp only at hs
    split at hs <;> obtain rfl := Except.ok.inj hs
    · rename_i hconn
      exact .pushed hconn
    · rename_i hconn
      exact .blocked (eq_false_of_ne_true hconn)
  | close written =>
    unfold PullNet.step at hs
    dsimp only at hs
    split at hs <;> obtain rfl := Except.ok.inj hs
    · rename_i hclose
      exact .closed hclose.1 hclose.2
    · rename_i hclose
      exact .blocked hclose

end PullNet

/-! ## The invariant -/

/-- The messages that the loop of `new_dns_request` still has. -/
def DnsJob.msgs : DnsJob → List GetRouteRequest
  | .sending msgs => msgs
  | _ => []

/-- `conn_init` is still to come to `r_lb[i]`. -/
def DnsJob.Awaits (i : Fin 3) : DnsJob → Prop
  | .resetting j => j ≤ i
  | _ => False

theorem msgs_resetFrom (n : ℕ) : (PullNet.resetFrom n).msgs = [] := by
  unfold PullNet.resetFrom
  split <;> rfl

theorem awaits_resetFrom {i : Fin 3} {n : ℕ} (h : n ≤ i.val) : (PullNet.resetFrom n).Awaits i := by
  unfold PullNet.resetFrom
  have hlt : n < 3 := by omega
  rw [dif_pos hlt]
  exact h

namespace PullNet

variable {s u : PullNet}

/-- The requests that are on the way, and the pairs of the responses that are. -/
def onTheWay (s : PullNet) : List GetRouteRequest := s.queue ++ s.job.msgs ++ s.up ++ s.down.map pairOf

theorem mem_onTheWay {req : GetRouteRequest} : req ∈ s.onTheWay ↔
    req ∈ s.queue ∨ req ∈ s.job.msgs ∨ req ∈ s.up ∨ req ∈ s.down.map pairOf := by
  unfold onTheWay
  simp only [List.mem_append, or_assoc]

/-- **The invariant.** -/
structure Inv (s : PullNet) : Prop where
  placed : Placed s.lbs
  accounted : ∀ i, ¬ s.job.Awaits i → ∀ k lb, (s.lbs i).routeLbMap.lookup k = some lb → lb.status = .pulling →
    lb.pair ∈ s.onTheWay ∨ lb.pair ∈ s.lost

theorem inv_start (connected : Bool) : Inv (start connected) where
  placed := fun i k lb h => by simp [start, RouteLB.new] at h
  accounted := fun i _ k lb h => by simp [start, RouteLB.new] at h

/-- A step that leaves the load balancers alone and forgets no request. -/
theorem Inv.mono (h : Inv s) (hlbs : u.lbs = s.lbs) (hjob : ∀ i, s.job.Awaits i → u.job.Awaits i)
    (hkeep : ∀ req, req ∈ s.onTheWay ∨ req ∈ s.lost → req ∈ u.onTheWay ∨ req ∈ u.lost) : Inv u where
  placed := by
    rw [hlbs]
    exact h.placed
  accounted := by
    rw [hlbs]
    intro i hi k lb hl hp
    exact hkeep _ (h.accounted i (fun hs => hi (hjob i hs)) k lb hl hp)

theorem Inv.api (h : Inv s) {c : ApiCall} {i : Fin 3} {rl : RouteLB} {pulled : Option GetRouteRequest}
    (hslot : RouteLBs.slot c.index = some i) (hrun : c.run E (s.lbs i) = .ok (rl, pulled)) :
    Inv { s with lbs := Function.update s.lbs i rl, queue := s.queue ++ pulled.toList } := by
  have hlookup : ∀ {k lb}, rl.routeLbMap.lookup k = some lb → _ := fun hl => (asked hrun).lookup hl
  rw [home_pair] at hslot
  constructor
  · intro j k lb hl
    dsimp only at hl
    by_cases hj : j = i
    · subst hj
      rw [Function.update_self] at hl
      rcases hlookup hl with ⟨old, hold, hpair, -⟩ | ⟨rfl, hpair, -⟩
      · rw [hpair]
        exact h.placed j k old hold
      · rw [hpair]
        exact ⟨rfl, hslot⟩
    · rw [Function.update_of_ne hj] at hl
      exact h.placed j k lb hl
  · intro j hj k lb hl hp
    dsimp only at hl
    have hway : ∀ req, (req ∈ s.onTheWay ∨ req ∈ s.lost) ∨ pulled = some req →
        req ∈ onTheWay { s with lbs := Function.update s.lbs i rl, queue := s.queue ++ pulled.toList } ∨
          req ∈ s.lost := by
      intro req hreq
      rw [← Option.mem_toList] at hreq
      rw [mem_onTheWay] at hreq ⊢
      dsimp only
      rw [List.mem_append]
      tauto
    refine hway lb.pair ?_
    by_cases hji : j = i
    · subst hji
      rw [Function.update_self] at hl
      rcases hlookup hl with ⟨old, hold, hpair, hstatus⟩ | ⟨-, hpair, hpulled⟩
      · rw [hpair]
        rcases hstatus hp with hpulling | hpulled
        · exact Or.inl (h.accounted j hj k old hold hpulling)
        · exact Or.inr hpulled
      · rw [hpair]
        exact Or.inr hpulled
    · rw [Function.update_of_ne hji] at hl
      exact Or.inl (h.accounted j hj k lb hl hp)

theorem Inv.receive (h : Inv s) {now : ℤ} {junk : Addr → Junk} {rsp : GetRouteResponse}
    {down : List GetRouteResponse} {lbs : RouteLBs} (hdown : s.down = rsp :: down)
    (hrecv : RouteLBs.recvRoute E rsp now junk s.lbs = .ok lbs) : Inv { s with lbs := lbs, down := down } := by
  have hleft := recvRoute_entry h.placed hrecv
  constructor
  · intro i k lb hl
    rcases hleft i k lb hl with ⟨hold, -⟩ | ⟨-, old, hold, hpair⟩
    · exact h.placed i k lb hold
    · rw [hpair]
      exact h.placed i k old hold
  · intro i hi k lb hl hp
    rcases hleft i k lb hl with ⟨hold, hother⟩ | ⟨hnew, -⟩
    · -- the response that is gone was not for this one
      have hwas := h.accounted i hi k lb hold hp
      rw [mem_onTheWay, hdown, List.map_cons, List.mem_cons] at hwas
      rw [mem_onTheWay]
      tauto
    · rw [hnew] at hp
      cases hp

theorem Inv.reset (h : Inv s) {i : Fin 3} (hjob : s.job = .resetting i) :
    Inv { s with lbs := Function.update s.lbs i (s.lbs i).resetLbStatus, job := resetFrom (i.val + 1) } := by
  have hlookup : ∀ j k lb, (Function.update s.lbs i (s.lbs i).resetLbStatus j).routeLbMap.lookup k = some lb →
      ∃ old, (s.lbs j).routeLbMap.lookup k = some old ∧ lb.pair = old.pair ∧
        (lb.status = .pulling → j ≠ i ∧ lb = old) := by
    intro j k lb hl
    by_cases hj : j = i
    · subst hj
      rw [Function.update_self, lookup_resetLbStatus] at hl
      obtain ⟨old, hold, rfl⟩ := Option.map_eq_some_iff.1 hl
      refine ⟨old, hold, ?_, fun hp => ?_⟩
      · unfold resetStatus
        split <;> rfl
      · rw [resetStatus_status] at hp
        cases hp
    · rw [Function.update_of_ne hj] at hl
      exact ⟨lb, hl, rfl, fun _ => ⟨hj, rfl⟩⟩
  constructor
  · intro j k lb hl
    obtain ⟨old, hold, hpair, -⟩ := hlookup j k lb hl
    rw [hpair]
    exact h.placed j k old hold
  · intro j hj k lb hl hp
    obtain ⟨old, hold, -, hsame⟩ := hlookup j k lb hl
    obtain ⟨hji, rfl⟩ := hsame hp
    -- what the loop has passed was reset before
    have hpassed : ¬ s.job.Awaits j := by
      rw [hjob]
      intro hle
      refine hj ?_
      have hle' : i.val ≤ j.val := hle
      have hne : i.val ≠ j.val := fun heq => hji (Fin.ext heq.symm)
      exact awaits_resetFrom (by omega)
    have hwas := h.accounted j hpassed k lb hold hp
    rw [mem_onTheWay, hjob] at hwas
    rw [mem_onTheWay]
    dsimp only
    rw [msgs_resetFrom]
    exact hwas

/-- While `new_dns_request` sends, `conn_init` does not run. -/
theorem awaits_of_sending {msgs : List GetRouteRequest} (hjob : s.job = .sending msgs) (i : Fin 3) :
    ¬ s.job.Awaits i := by
  rw [hjob]
  exact id

theorem Inv.send (h : Inv s) {req : GetRouteRequest} {msgs : List GetRouteRequest}
    (hjob : s.job = .sending (req :: msgs)) : Inv { s with job := .sending msgs, up := s.up ++ [req] } := by
  have hmsgs : s.job.msgs = req :: msgs := by rw [hjob]; rfl
  have hrest : (DnsJob.sending msgs).msgs = msgs := rfl
  refine h.mono rfl (fun i hi => absurd hi (awaits_of_sending hjob i)) fun req' hreq => ?_
  rw [mem_onTheWay, hmsgs] at hreq
  rw [mem_onTheWay]
  dsimp only
  rw [hrest, List.mem_append, List.mem_singleton]
  rw [List.mem_cons] at hreq
  tauto

theorem Inv.drop (h : Inv s) {req : GetRouteRequest} {msgs : List GetRouteRequest}
    (hjob : s.job = .sending (req :: msgs)) : Inv { s with job := .sending msgs, lost := s.lost ++ [req] } := by
  have hmsgs : s.job.msgs = req :: msgs := by rw [hjob]; rfl
  have hrest : (DnsJob.sending msgs).msgs = msgs := rfl
  refine h.mono rfl (fun i hi => absurd hi (awaits_of_sending hjob i)) fun req' hreq => ?_
  rw [mem_onTheWay, hmsgs] at hreq
  rw [mem_onTheWay]
  dsimp only
  rw [hrest, List.mem_append, List.mem_singleton]
  rw [List.mem_cons] at hreq
  tauto

theorem Inv.serve (h : Inv s) {hosts : List Lbrss.HostInfo} {req : GetRouteRequest} {up : List GetRouteRequest}
    (hup : s.up = req :: up) : Inv { s with up := up, down := s.down ++ [⟨req.modid, req.cmdid, hosts⟩] } := by
  have hpair : pairOf ⟨req.modid, req.cmdid, hosts⟩ = req := rfl
  refine h.mono rfl (fun _ => id) fun req' hreq => ?_
  rw [mem_onTheWay, hup, List.mem_cons] at hreq
  rw [mem_onTheWay]
  dsimp only
  rw [List.map_append, List.map_singleton, hpair, List.mem_append, List.mem_singleton]
  tauto

theorem Inv.refuse (h : Inv s) {req : GetRouteRequest} {up : List GetRouteRequest} (hup : s.up = req :: up) :
    Inv { s with up := up, lost := s.lost ++ [req] } := by
  refine h.mono rfl (fun _ => id) fun req' hreq => ?_
  rw [mem_onTheWay, hup, List.mem_cons] at hreq
  rw [mem_onTheWay]
  dsimp only
  rw [List.mem_append, List.mem_singleton]
  tauto

theorem Inv.connect (h : Inv s) : Inv { s with job := resetFrom 0, connected := true, lost := [] } where
  placed := h.placed
  accounted := fun i hi => absurd (awaits_resetFrom (Nat.zero_le i.val)) hi

theorem Inv.push (h : Inv s) (rsp : GetRouteResponse) : Inv { s with down := s.down ++ [rsp] } := by
  refine h.mono rfl (fun _ => id) fun req hreq => ?_
  rw [mem_onTheWay] at hreq ⊢
  dsimp only
  rw [List.map_append, List.mem_append]
  tauto

theorem Inv.close (h : Inv s) (written : ℕ) : Inv { s with
    connected := false
    up := s.up.drop written
    down := []
    lost := s.lost ++ s.up.take written ++ s.down.map pairOf } := by
  refine h.mono rfl (fun _ => id) fun req hreq => ?_
  have hup : req ∈ s.up ↔ req ∈ s.up.take written ∨ req ∈ s.up.drop written := by
    rw [← List.mem_append, List.take_append_drop]
  rw [mem_onTheWay] at hreq ⊢
  dsimp only
  rw [List.mem_append, List.mem_append]
  tauto

/-- **One step keeps the invariant.** -/
theorem Inv.step (h : Inv s) {e : Event} (hs : s.step E e = .ok u) : Inv u := by
  cases stepped hs with
  | blocked _ => exact h
  | asked hslot hrun => exact h.api hslot hrun
  | took hjob =>
    have hmsgs : s.job.msgs = [] := by rw [hjob]; rfl
    have hqueue : (DnsJob.sending s.queue).msgs = s.queue := rfl
    refine h.mono rfl (by rw [hjob]; exact fun _ hi => hi.elim) fun req hreq => ?_
    rw [mem_onTheWay, hmsgs] at hreq
    rw [mem_onTheWay]
    dsimp only
    rw [hqueue]
    tauto
  | emptied hjob =>
    refine h.mono rfl (fun i hi => absurd hi (awaits_of_sending hjob i)) fun req hreq => ?_
    rw [mem_onTheWay, hjob] at hreq
    rw [mem_onTheWay]
    exact hreq
  | sent hjob => exact h.send hjob
  | dropped hjob => exact h.drop hjob
  | connected _ _ => exact h.connect
  | reset hjob => exact h.reset hjob
  | received _ hdown hrecv => exact h.receive hdown hrecv
  | served hup => exact h.serve hup
  | refused hup => exact h.refuse hup
  | pushed _ => exact h.push _
  | closed _ _ => exact h.close _

theorem inv_run {connected : Bool} {es : List Event} (h : Runs.run (step E) (start connected) es = .ok s) : Inv s :=
  Runs.run_inv (I := Inv) (fun _ _ _ ht hu => ht.step hu) (inv_start connected) h

/-- **No pull is forgotten**, in any order of what the threads of the agent and the service do.
A load balancer that is being pulled is about to be reset, or its request is on the queue, in the
loop that sends, or on the connection, or a response for its pair is, or the request was lost
since the hook of a connection was last called. So when nothing is on the way and nothing was
lost, no load balancer is being pulled. -/
theorem no_pull_forgotten (E : Env) (connected : Bool) (es : List Event) (s : PullNet)
    (h : Runs.run (step E) (start connected) es = .ok s) :
    (∀ i k lb, (s.lbs i).routeLbMap.lookup k = some lb → lb.status = .pulling →
      s.job.Awaits i ∨ lb.pair ∈ s.queue ∨ lb.pair ∈ s.job.msgs ∨ lb.pair ∈ s.up ∨
        lb.pair ∈ s.down.map pairOf ∨ lb.pair ∈ s.lost) ∧
      (s.job = .idle → s.queue = [] → s.up = [] → s.down = [] → s.lost = [] →
        ∀ i k lb, (s.lbs i).routeLbMap.lookup k = some lb → lb.status = .new) := by
  have hinv := inv_run h
  have hall : ∀ i k lb, (s.lbs i).routeLbMap.lookup k = some lb → lb.status = .pulling →
      s.job.Awaits i ∨ lb.pair ∈ s.queue ∨ lb.pair ∈ s.job.msgs ∨ lb.pair ∈ s.up ∨
        lb.pair ∈ s.down.map pairOf ∨ lb.pair ∈ s.lost := by
    intro i k lb hl hp
    by_cases hi : s.job.Awaits i
    · exact Or.inl hi
    · have hreq := hinv.accounted i hi k lb hl hp
      rw [mem_onTheWay] at hreq
      tauto
  refine ⟨hall, fun hjob hqueue hup hdown hlost i k lb hl => ?_⟩
  rcases hstatus : lb.status with _ | _
  · -- there is no place for its request
    have hplace := hall i k lb hl hstatus
    rw [hjob, hqueue, hup, hdown, hlost] at hplace
    simp [DnsJob.Awaits, DnsJob.msgs] at hplace
  · rfl

/-- A pull that is served, and dealt with. -/
def servedPull : List Event :=
  [.api (.getRoute 1 1 0 0), .takeQueue, .send true, .send true, .serve [⟨5, 80⟩] true, .receive 0 fun _ => ⟨0, 0⟩]

theorem no_pull_forgotten_served : ∃ s, Runs.run (step .shipped) (start true) servedPull = .ok s ∧
    ∀ i k lb, (s.lbs i).routeLbMap.lookup k = some lb → lb.status = .new := by
  obtain ⟨s, hs, hend⟩ := Runs.ok_of_toOption (x := Runs.run (step .shipped) (start true) servedPull)
    (g := fun s => (s.job, s.queue, s.up, s.down.isEmpty, s.lost)) (b := (.idle, [], [], true, []))
    (by decide)
  obtain ⟨hjob, hend⟩ := Prod.mk.inj hend
  obtain ⟨hqueue, hend⟩ := Prod.mk.inj hend
  obtain ⟨hup, hend⟩ := Prod.mk.inj hend
  obtain ⟨hdown, hlost⟩ := Prod.mk.inj hend
  exact ⟨s, hs, (no_pull_forgotten .shipped true servedPull s hs).2 hjob hqueue hup (List.isEmpty_iff.1 hdown) hlost⟩

/-! ## One pull at a time -/

/-- The event puts a request for the pair on `dns_queue`. -/
def Pulls (E : Env) (req : GetRouteRequest) (s : PullNet) (e : Event) : Prop :=
  ∃ c i rl, e = .api c ∧ RouteLBs.slot c.index = some i ∧ c.run E (s.lbs i) = .ok (rl, some req)

/-- The event deals with a response for the pair, or resets the shard of the pair. -/
def Settles (req : GetRouteRequest) (s : PullNet) : Event → Prop
  | .receive _ _ => s.job = .idle ∧ ∃ rsp, s.down.head? = some rsp ∧ pairOf rsp = req
  | .reset => ∃ i, s.job = .resetting i ∧ home req = some i
  | _ => False

/-- The load balancer of the pair is there, and is being pulled. -/
def Waiting (req : GetRouteRequest) (s : PullNet) : Prop :=
  ∃ i lb, home req = some i ∧ (s.lbs i).routeLbMap.lookup (pairKey req) = some lb ∧ lb.status = .pulling

end PullNet

open PullNet

/-- A request of the API leaves a load balancer that is being pulled so. -/
theorem Asked.pulling {req : GetRouteRequest} {rl rl' : RouteLB} {pulled : Option GetRouteRequest}
    (h : Asked req rl rl' pulled) {k : UInt64} {lb : LoadBalance} (hl : rl.routeLbMap.lookup k = some lb)
    (hp : lb.status = .pulling) : ∃ lb', rl'.routeLbMap.lookup k = some lb' ∧ lb'.status = .pulling := by
  have hset : ∀ {k' : UInt64} {lb' : LoadBalance}, lb'.status = .pulling →
      ∃ lb'', (rl.set k' lb').routeLbMap.lookup k = some lb'' ∧ lb''.status = .pulling := by
    intro k' lb' hp'
    unfold RouteLB.set
    by_cases hk : k = k'
    · subst hk
      exact ⟨lb', AList.lookup_insert _, hp'⟩
    · exact ⟨lb, (AList.lookup_insert_ne hk).trans hl, hp⟩
  cases h with
  | same => exact ⟨lb, hl, hp⟩
  | kept hold _ hstatus =>
    rename_i old new
    by_cases hk : k = pairKey req
    · rw [hk, hold] at hl
      refine hset ?_
      rw [hstatus, Option.some.inj hl, hp]
    · exact ⟨lb, (AList.lookup_insert_ne hk).trans hl, hp⟩
  | again _ _ _ hp' => exact hset hp'
  | first _ _ hp' => exact hset hp'

/-- It pulls a pair only if its load balancer is not being pulled, and is afterwards. -/
theorem Asked.pulled {req p : GetRouteRequest} {rl rl' : RouteLB} (h : Asked req rl rl' (some p))
    (hplaced : ∀ k lb, rl.routeLbMap.lookup k = some lb → k = pairKey lb.pair) :
    p = req ∧ (∀ lb, rl.routeLbMap.lookup (pairKey p) = some lb → lb.status = .new) ∧
      ∃ lb', rl'.routeLbMap.lookup (pairKey p) = some lb' ∧ lb'.status = .pulling := by
  cases h with
  | again hold hpair hnew hp =>
    rename_i old new
    obtain rfl : req = old.pair := pairKey_inj (hplaced _ _ hold)
    refine ⟨rfl, fun lb hl => ?_, new, AList.lookup_insert _, hp⟩
    rw [hold] at hl
    rw [← Option.some.inj hl]
    exact hnew
  | first hnone hpair hp =>
    refine ⟨rfl, fun lb hl => ?_, _, AList.lookup_insert _, hp⟩
    rw [hnone] at hl
    cases hl

namespace PullNet

variable {s u : PullNet} {req : GetRouteRequest}

/-- A pull makes its load balancer wait, and did not find it waiting. -/
theorem Inv.pulls (h : Inv s) {e : Event} (hp : Pulls E req s e) :
    ¬ Waiting req s ∧ ∀ u, s.step E e = .ok u → Waiting req u := by
  obtain ⟨c, i, rl, rfl, hslot, hrun⟩ := hp
  obtain ⟨hpair, hnew, lb', hl', hp'⟩ := (asked hrun).pulled fun k lb hl => (h.placed i k lb hl).1
  have hhome : home req = some i := by rw [hpair, ← home_pair, hslot]
  constructor
  · rintro ⟨j, lb, hj, hl, hpulling⟩
    obtain rfl := Option.some.inj (hhome.symm.trans hj)
    rw [hnew lb hl] at hpulling
    cases hpulling
  · intro u hu
    cases stepped hu with
    | blocked hno => exact hno.elim
    | asked hslot' hrun' =>
      obtain rfl := Option.some.inj (hslot.symm.trans hslot')
      obtain ⟨rfl, rfl⟩ := Prod.mk.inj (Except.ok.inj (hrun.symm.trans hrun'))
      refine ⟨i, lb', hhome, ?_, hp'⟩
      dsimp only
      rw [Function.update_self]
      exact hl'

/-- Only what settles the pair ends its waiting. -/
theorem Waiting.step (hw : Waiting req s) {e : Event} (he : ¬ Settles req s e)
    (hs : s.step E e = .ok u) : Waiting req u := by
  obtain ⟨i, lb, hhome, hl, hp⟩ := hw
  cases stepped hs with
  | blocked _ => exact ⟨i, lb, hhome, hl, hp⟩
  | @asked c j rl pulled _ hrun =>
    by_cases hij : i = j
    · subst hij
      obtain ⟨lb', hl', hp'⟩ := (asked hrun).pulling hl hp
      refine ⟨i, lb', hhome, ?_, hp'⟩
      dsimp only
      rw [Function.update_self]
      exact hl'
    · refine ⟨i, lb, hhome, ?_, hp⟩
      dsimp only
      rw [Function.update_of_ne hij]
      exact hl
  | @received now junk rsp down lbs hjob hdown hrecv =>
    have hother : pairOf rsp ≠ req := fun hpair => he ⟨hjob, rsp, by rw [hdown, List.head?_cons], hpair⟩
    obtain ⟨j, -, hshards, hkeys, -⟩ := recvRoute_ok hrecv
    refine ⟨i, lb, hhome, ?_, hp⟩
    dsimp only
    by_cases hij : i = j
    · subst hij
      rw [hkeys _ fun hk => hother (pairKey_inj hk).symm]
      exact hl
    · rw [hshards i hij]
      exact hl
  | @reset j hjob =>
    have hij : i ≠ j := by
      rintro rfl
      exact he ⟨i, hjob, hhome⟩
    refine ⟨i, lb, hhome, ?_, hp⟩
    dsimp only
    rw [Function.update_of_ne hij]
    exact hl
  | took _ => exact ⟨i, lb, hhome, hl, hp⟩
  | emptied _ => exact ⟨i, lb, hhome, hl, hp⟩
  | sent _ => exact ⟨i, lb, hhome, hl, hp⟩
  | dropped _ => exact ⟨i, lb, hhome, hl, hp⟩
  | connected _ _ => exact ⟨i, lb, hhome, hl, hp⟩
  | served _ => exact ⟨i, lb, hhome, hl, hp⟩
  | refused _ => exact ⟨i, lb, hhome, hl, hp⟩
  | pushed _ => exact ⟨i, lb, hhome, hl, hp⟩
  | closed _ _ => exact ⟨i, lb, hhome, hl, hp⟩

/-- **One pull at a time**: when two requests of the API pull the same pair, then a response
for the pair was dealt with in between, or the load balancers of its shard were reset. -/
theorem no_second_pull (E : Env) (connected : Bool) (pre mid : List Event) (e e' : Event) (s u : PullNet)
    (hs : Runs.run (step E) (start connected) pre = .ok s) (hpull : Pulls E req s e)
    (hu : Runs.run (step E) s (e :: mid) = .ok u) (hpull' : Pulls E req u e') :
    ∃ m f v, m ++ [f] <+: mid ∧ Runs.run (step E) s (e :: m) = .ok v ∧ Settles req v f := by
  by_contra hnone
  push Not at hnone
  obtain ⟨t, ht, hmid⟩ := Runs.run_cons_ok.1 hu
  have hinv := inv_run hs
  -- nothing has settled the pair, so it waits to the end
  have hwait : ∀ m, m <+: mid → ∀ v, Runs.run (step E) t m = .ok v → Waiting req v := by
    refine Runs.throughout_of_along (P := fun _ v => Waiting req v) (C := fun _ v f => ¬ Settles req v f)
      ((hinv.pulls hpull).2 t ht) ?_ ?_
    · exact fun m f v w hw hf hstep => hw.step hf hstep
    · intro m f hm v hv
      exact hnone m f v hm (Runs.run_cons_ok.2 ⟨t, ht, hv⟩)
  have hend : Inv u := inv_run (Runs.run_append_ok.2 ⟨s, hs, hu⟩)
  exact (hend.pulls hpull').1 (hwait mid (List.prefix_refl _) u hmid)

/-- The pair is pulled again when its routes are out of date, behind the response. -/
theorem no_second_pull_served : ∃ m f v, m ++ [f] <+: servedPull.tail ∧
    Runs.run (step .shipped) (start true) (.api (.getRoute 1 1 0 0) :: m) = .ok v ∧ Settles ⟨1, 1⟩ v f := by
  obtain ⟨u, hu, hpulled⟩ := Runs.ok_of_toOption (x := Runs.run (step .shipped) (start true) servedPull)
    (g := fun u => ((ApiCall.getRoute 1 1 100 0).run .shipped (u.lbs 2)).toOption.map (·.2))
    (b := some (some ⟨1, 1⟩)) (by decide)
  obtain ⟨⟨rl, pulled⟩, hrun, rfl⟩ := Runs.ok_of_toOption hpulled
  exact no_second_pull .shipped true [] servedPull.tail (.api (.getRoute 1 1 0 0)) (.api (.getRoute 1 1 100 0))
    (start true) u rfl ⟨_, 2, _, rfl, by decide, rfl⟩ hu ⟨_, 2, rl, rfl, by decide, hrun⟩

end PullNet

end LbRpc
