import LbRpc.Agent.RouteLB
import LbRpc.Proof.LoadBalanceStep

/-!
# What each call of a `RouteLB` can do

One relation per call, between its arguments and its outcome, with a fault as one of the
outcomes. Later proofs go through its cases and do not unfold the call.

* `Kept.run`: what the calls of a load balancer keep holds of each one in every state that is
  reached.
-/

namespace LbRpc

namespace RouteLB

variable {E : Env} {rl rl' : RouteLB}

/-- **What `get_host` can do.** -/
inductive GotHost (E : Env) (modid cmdid : Int32) (now : ℤ) (junk : Int32) (rl : RouteLB) :
    Except Fault (RouteLB × HostReply) → Prop
  | unknown : rl.routeLbMap.lookup (key modid cmdid) = none →
      GotHost E modid cmdid now junk rl
        (.ok (rl.set (key modid cmdid) (LoadBalance.new modid cmdid junk).pull.1,
          ⟨.noexist, ⟨.noexist, none⟩, some (LoadBalance.new modid cmdid junk).pull.2⟩))
  | waiting {lb} : rl.routeLbMap.lookup (key modid cmdid) = some lb → lb.empty = true →
      lb.status = .pulling →
      GotHost E modid cmdid now junk rl (.ok (rl, ⟨.succ, ⟨.noexist, none⟩, none⟩))
  | assertion {lb} : rl.routeLbMap.lookup (key modid cmdid) = some lb → lb.empty = true →
      lb.status ≠ .pulling → GotHost E modid cmdid now junk rl (.error .assertFail)
  | fault {lb f} : rl.routeLbMap.lookup (key modid cmdid) = some lb → lb.empty = false →
      lb.pickOneHost E = .error f → GotHost E modid cmdid now junk rl (.error f)
  | picked {lb lb' p} : rl.routeLbMap.lookup (key modid cmdid) = some lb → lb.empty = false →
      lb.pickOneHost E = .ok (lb', p) →
      GotHost E modid cmdid now junk rl
        (.ok (rl.set (key modid cmdid) (repull E now lb').1,
          ⟨p.ret, ⟨p.ret, p.host⟩, (repull E now lb').2⟩))

theorem gotHost (modid cmdid : Int32) (now : ℤ) (junk : Int32) (rl : RouteLB) :
    GotHost E modid cmdid now junk rl (rl.getHost E modid cmdid now junk) := by
  unfold getHost
  rcases hl : rl.routeLbMap.lookup (key modid cmdid) with _ | lb
  · exact .unknown hl
  dsimp only
  split
  · rename_i he
    split
    · rename_i hs; exact .waiting hl he hs
    · rename_i hs; exact .assertion hl he hs
  · rename_i he
    have he' : lb.empty = false := by simpa using he
    rcases hp : lb.pickOneHost E with f | ⟨lb', p⟩
    · exact .fault hl he' hp
    · exact .picked hl he' hp

/-- **What `get_route` can do.** -/
inductive GotRoute (E : Env) (modid cmdid : Int32) (now : ℤ) (junk : Int32) (rl : RouteLB) :
    Except Fault (RouteLB × RouteReply) → Prop
  | unknown : rl.routeLbMap.lookup (key modid cmdid) = none →
      GotRoute E modid cmdid now junk rl
        (.ok (rl.set (key modid cmdid) (LoadBalance.new modid cmdid junk).pull.1,
          ⟨.noexist, [], some (LoadBalance.new modid cmdid junk).pull.2⟩))
  | fault {lb f} : rl.routeLbMap.lookup (key modid cmdid) = some lb →
      lb.getAllHosts.mapM (readHost lb.heap) = .error f →
      GotRoute E modid cmdid now junk rl (.error f)
  | routes {lb hosts} : rl.routeLbMap.lookup (key modid cmdid) = some lb →
      lb.getAllHosts.mapM (readHost lb.heap) = .ok hosts →
      GotRoute E modid cmdid now junk rl
        (.ok (rl.set (key modid cmdid) (repull E now lb).1, ⟨.succ, hosts, (repull E now lb).2⟩))

theorem gotRoute (modid cmdid : Int32) (now : ℤ) (junk : Int32) (rl : RouteLB) :
    GotRoute E modid cmdid now junk rl (rl.getRoute E modid cmdid now junk) := by
  unfold getRoute
  rcases hl : rl.routeLbMap.lookup (key modid cmdid) with _ | lb
  · exact .unknown hl
  dsimp only
  rcases hm : lb.getAllHosts.mapM (readHost lb.heap) with f | hosts
  · exact .fault hl hm
  · exact .routes hl hm

/-- **What `update_host` can do.** -/
inductive UpdatedHost (E : Env) (modid cmdid : Int32) (now : ℤ) (junk : Addr → Junk)
    (rsp : Lbrss.GetRouteResponse) (rl : RouteLB) : Except Fault RouteLB → Prop
  | unknown : rl.routeLbMap.lookup (key modid cmdid) = none →
      UpdatedHost E modid cmdid now junk rsp rl (.ok rl)
  | erased {lb} : rl.routeLbMap.lookup (key modid cmdid) = some lb → rsp.host = [] →
      UpdatedHost E modid cmdid now junk rsp rl (.ok ⟨rl.routeLbMap.erase (key modid cmdid)⟩)
  | fault {lb f} : rl.routeLbMap.lookup (key modid cmdid) = some lb → rsp.host ≠ [] →
      lb.update E now junk rsp = .error f → UpdatedHost E modid cmdid now junk rsp rl (.error f)
  | updated {lb lb'} : rl.routeLbMap.lookup (key modid cmdid) = some lb → rsp.host ≠ [] →
      lb.update E now junk rsp = .ok lb' →
      UpdatedHost E modid cmdid now junk rsp rl (.ok (rl.set (key modid cmdid) lb'))

theorem updatedHost (modid cmdid : Int32) (now : ℤ) (junk : Addr → Junk)
    (rsp : Lbrss.GetRouteResponse) (rl : RouteLB) :
    UpdatedHost E modid cmdid now junk rsp rl (rl.updateHost E modid cmdid now junk rsp) := by
  unfold updateHost
  rcases hl : rl.routeLbMap.lookup (key modid cmdid) with _ | lb
  · exact .unknown hl
  dsimp only
  split
  · rename_i hnil; exact .erased hl hnil
  · rename_i hne
    rcases hu : lb.update E now junk rsp with f | lb'
    · exact .fault hl hne hu
    · exact .updated hl hne hu

/-- **What `report_host` can do.** -/
inductive ReportedHost (E : Env) (req : Lbrss.ReportRequest) (now ts cts : ℤ) (rl : RouteLB) :
    Except Fault (RouteLB × Option Lbrss.ReportStatusRequest) → Prop
  | unknown : rl.routeLbMap.lookup (key req.modid req.cmdid) = none →
      ReportedHost E req now ts cts rl (.ok (rl, none))
  | reportFault {lb f} : rl.routeLbMap.lookup (key req.modid req.cmdid) = some lb →
      lb.report E now ts req.host.ip req.host.port req.retcode = .error f →
      ReportedHost E req now ts cts rl (.error f)
  | commitFault {lb lb' v f} : rl.routeLbMap.lookup (key req.modid req.cmdid) = some lb →
      lb.report E now ts req.host.ip req.host.port req.retcode = .ok (lb', v) →
      lb'.commit E cts = .error f → ReportedHost E req now ts cts rl (.error f)
  | reported {lb lb' v sent} : rl.routeLbMap.lookup (key req.modid req.cmdid) = some lb →
      lb.report E now ts req.host.ip req.host.port req.retcode = .ok (lb', v) →
      lb'.commit E cts = .ok sent →
      ReportedHost E req now ts cts rl (.ok (rl.set (key req.modid req.cmdid) lb', sent))

theorem reportedHost (req : Lbrss.ReportRequest) (now ts cts : ℤ) (rl : RouteLB) :
    ReportedHost E req now ts cts rl (rl.reportHost E req now ts cts) := by
  unfold reportHost
  rcases hl : rl.routeLbMap.lookup (key req.modid req.cmdid) with _ | lb
  · exact .unknown hl
  dsimp only
  rcases hp : lb.report E now ts req.host.ip req.host.port req.retcode with f | ⟨lb', v⟩
  · exact .reportFault hl hp
  dsimp only
  rcases hc : lb'.commit E cts with f | sent
  · exact .commitFault hl hp hc
  · exact .reported hl hp hc

/-! ## A property of every load balancer -/

theorem lookup_resetLbStatus (k : UInt64) :
    rl.resetLbStatus.routeLbMap.lookup k = (rl.routeLbMap.lookup k).map resetStatus :=
  List.dlookup_map₂ k

theorem map_ok {α β φ : Type*} {x : Except φ α} {g : α → β} {b : β} (h : x.map g = .ok b) :
    ∃ a, x = .ok a ∧ g a = b := by
  rcases x with f | a
  · cases h
  · exact ⟨a, rfl, by cases h; rfl⟩

theorem map_error {α β φ : Type*} {x : Except φ α} {g : α → β} {f : φ} (h : x.map g = .error f) :
    x = .error f := by
  rcases x with e | a
  · cases h; rfl
  · cases h

/-- Every load balancer of the map has the property. -/
def Every (P : LoadBalance → Prop) (rl : RouteLB) : Prop :=
  ∀ k lb, rl.routeLbMap.lookup k = some lb → P lb

variable {P : LoadBalance → Prop}

theorem Every.set (h : Every P rl) {k : UInt64} {lb : LoadBalance} (hlb : P lb) : Every P (rl.set k lb) := by
  intro j lb' hj
  unfold RouteLB.set at hj
  by_cases hjk : j = k
  · subst hjk
    rw [AList.lookup_insert] at hj
    cases hj
    exact hlb
  · rw [AList.lookup_insert_ne hjk] at hj
    exact h j lb' hj

theorem Every.erase (h : Every P rl) (k : UInt64) : Every P ⟨rl.routeLbMap.erase k⟩ := by
  intro j lb hj
  by_cases hjk : j = k
  · subst hjk
    rw [AList.lookup_erase] at hj
    cases hj
  · rw [AList.lookup_erase_ne hjk] at hj
    exact h j lb hj

/-- The property holds of a new load balancer, and its calls keep it. -/
structure Kept (E : Env) (P : LoadBalance → Prop) : Prop where
  new : ∀ modid cmdid accessCnt, P (LoadBalance.new modid cmdid accessCnt)
  pull : ∀ lb, P lb → P lb.pull.1
  pick : ∀ lb lb' p, P lb → lb.pickOneHost E = .ok (lb', p) → P lb'
  update : ∀ lb lb' now junk rsp, P lb → lb.update E now junk rsp = .ok lb' → P lb'
  report : ∀ lb lb' now ts ip port rc v, P lb → lb.report E now ts ip port rc = .ok (lb', v) → P lb'

theorem Kept.repull (hP : Kept E P) {lb : LoadBalance} (h : P lb) (now : ℤ) :
    P (RouteLB.repull E now lb).1 := by
  unfold RouteLB.repull
  split
  · exact hP.pull lb h
  · exact h

/-- **One call** keeps the property of every load balancer, where `reset_lb_status` does. -/
theorem Kept.step (hP : Kept E P) {op : Op} (h : Every P rl)
    (hreset : op = .resetLbStatus → Every P rl.resetLbStatus) (hs : step E rl op = .ok rl') :
    Every P rl' := by
  cases op with
  | getHost modid cmdid now junk =>
    obtain ⟨r, hr, rfl⟩ := map_ok hs
    have hgot := gotHost (E := E) modid cmdid now junk rl
    rw [hr] at hgot
    cases hgot with
    | unknown _ => exact h.set (hP.pull _ (hP.new _ _ _))
    | waiting _ _ _ => exact h
    | picked hl _ hp => exact h.set (hP.repull (hP.pick _ _ _ (h _ _ hl) hp) now)
  | getRoute modid cmdid now junk =>
    obtain ⟨r, hr, rfl⟩ := map_ok hs
    have hgot := gotRoute (E := E) modid cmdid now junk rl
    rw [hr] at hgot
    cases hgot with
    | unknown _ => exact h.set (hP.pull _ (hP.new _ _ _))
    | routes hl _ => exact h.set (hP.repull (h _ _ hl) now)
  | reportHost req now ts cts =>
    obtain ⟨r, hr, rfl⟩ := map_ok hs
    have hrep := reportedHost (E := E) req now ts cts rl
    rw [hr] at hrep
    cases hrep with
    | unknown _ => exact h
    | reported hl hp _ => exact h.set (hP.report _ _ _ _ _ _ _ _ (h _ _ hl) hp)
  | updateHost modid cmdid now junk rsp =>
    have hupd := updatedHost (E := E) modid cmdid now junk rsp rl
    have hs' : rl.updateHost E modid cmdid now junk rsp = .ok rl' := hs
    rw [hs'] at hupd
    cases hupd with
    | unknown _ => exact h
    | erased _ _ => exact h.erase _
    | updated hl _ hu => exact h.set (hP.update _ _ _ _ _ (h _ _ hl) hu)
  | resetLbStatus =>
    rw [← Except.ok.inj hs]
    exact hreset rfl

theorem Every.reset (h : Every P rl) (hP : ∀ lb, P lb → P (resetStatus lb)) : Every P rl.resetLbStatus := by
  intro k lb hk
  rw [lookup_resetLbStatus] at hk
  obtain ⟨lb0, hlb0, rfl⟩ := Option.map_eq_some_iff.1 hk
  exact hP lb0 (h k lb0 hlb0)

/-- **Every run** keeps it. -/
theorem Kept.run (hP : Kept E P) (hreset : ∀ lb, P lb → P (resetStatus lb)) {ops : List Op}
    (h : Runs.run (RouteLB.step E) RouteLB.new ops = .ok rl) : Every P rl := by
  refine Runs.run_inv (I := Every P) (fun t op u ht hu => hP.step ht (fun _ => ht.reset hreset) hu) ?_ h
  intro k lb hk
  simp [RouteLB.new] at hk

/-- So does a call on one load balancer alone, whoever makes it. -/
theorem Kept.call (hP : Kept E P) {lb lb' : LoadBalance} (h : P lb) {op : LoadBalance.Op}
    (hs : LoadBalance.step E lb op = .ok lb') : P lb' := by
  cases op with
  | update now junk rsp => exact hP.update _ _ _ _ _ h hs
  | report now ts ip port rc =>
    obtain ⟨v, hr⟩ := LoadBalance.step_report hs
    exact hP.report _ _ _ _ _ _ _ _ h hr
  | getAllHosts =>
    rw [← Except.ok.inj hs]
    exact h
  | pickOneHost =>
    obtain ⟨p, hp⟩ := LoadBalance.step_pick hs
    exact hP.pick _ _ _ h hp

end RouteLB

end LbRpc
