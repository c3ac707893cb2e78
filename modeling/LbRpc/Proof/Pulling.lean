import LbRpc.Proof.RouteLbStep

/-!
# A load balancer without hosts is being pulled

`get_host` asserts that a load balancer whose map is empty has status `PULLING`.

* `waits_step`: every call but `reset_lb_status` keeps this of all load balancers, and
  `reset_lb_status` keeps it when none of them is empty.
* `get_host_assert_iff`: over any interleaving, the status is right in every reached
  state and the assertion never fails, **exactly when** no reconnect resets a load
  balancer that still waits for its first response.
-/

namespace LbRpc

namespace RouteLB

variable {E : Env} {rl rl' : RouteLB}

/-- An empty load balancer is being pulled. -/
def Waits (lb : LoadBalance) : Prop := lb.empty = true → lb.status = .pulling

/-- Every empty load balancer of the map is being pulled. -/
def WaitsForPull (rl : RouteLB) : Prop := ∀ k lb, rl.routeLbMap.lookup k = some lb → Waits lb

theorem waits_new : WaitsForPull new := fun k lb h => by simp [new] at h

theorem waits_of_frame {lb lb' : LoadBalance} (hm : lb'.hostMap = lb.hostMap)
    (hs : lb'.status = lb.status) (h : Waits lb) : Waits lb' := by
  intro he
  rw [hs]
  -- `empty` reads the map only
  refine h ?_
  unfold LoadBalance.empty at he ⊢
  rw [← hm]; exact he

/-- After an update the map holds the hosts of the response. -/
theorem update_not_empty {lb lb' : LoadBalance} {now : ℤ} {junk : Addr → Junk}
    {rsp : Lbrss.GetRouteResponse} (h : lb.update E now junk rsp = .ok lb') : lb'.empty = false := by
  have hne : rsp.host ≠ [] := (LoadBalance.update_cases h).1
  obtain ⟨g, gs, hg⟩ := List.exists_cons_of_ne_nil hne
  have hmem : key g.ip g.port ∈ lb'.hostMap := by
    rw [LoadBalance.mem_update h]
    left
    unfold LoadBalance.remoteHosts
    rw [hg]
    exact List.mem_cons_self
  unfold LoadBalance.empty
  rw [AList.mem_keys] at hmem
  rw [List.isEmpty_eq_false_iff]
  exact List.ne_nil_of_mem hmem

theorem resetStatus_empty (lb : LoadBalance) : (resetStatus lb).empty = lb.empty := by
  unfold resetStatus
  split <;> rfl

theorem resetStatus_status (lb : LoadBalance) : (resetStatus lb).status = .new := by
  unfold resetStatus
  split
  · rfl
  · rename_i h
    rcases hs : lb.status with _ | _
    · exact absurd hs h
    · rfl

/-- **`reset_lb_status` keeps the statuses right exactly when no load balancer is empty.** -/
theorem waits_reset_iff :
    WaitsForPull rl.resetLbStatus ↔ ∀ k lb, rl.routeLbMap.lookup k = some lb → lb.empty = false := by
  constructor
  · intro h k lb hk
    have hw : Waits (resetStatus lb) := h k _ (by rw [lookup_resetLbStatus, hk]; rfl)
    -- an empty one would be `NEW` after the reset
    by_contra he
    have hp := hw (by rw [resetStatus_empty]; simpa using he)
    rw [resetStatus_status] at hp
    cases hp
  · intro h k lb' hk he
    rw [lookup_resetLbStatus] at hk
    obtain ⟨lb, hlb, rfl⟩ := Option.map_eq_some_iff.1 hk
    have := h k lb hlb
    rw [resetStatus_empty, this] at he
    cases he

/-- The calls of a load balancer keep its status right. -/
theorem waits_kept (E : Env) : Kept E Waits where
  new := fun _ _ _ _ => rfl
  pull := fun _ _ _ => rfl
  pick := fun lb lb' p h hp => by
    obtain ⟨hmap, -, hstatus, -⟩ := (LoadBalance.picked hp).frame
    exact waits_of_frame hmap hstatus h
  update := fun lb lb' now junk rsp _ hu he => by
    rw [update_not_empty hu] at he
    cases he
  report := fun lb lb' now ts ip port rc v h hr => by
    rcases LoadBalance.report_cases hr with ⟨-, h1, -⟩ | ⟨a, hi, -, -, h1, -⟩
    · rw [h1]
      exact h
    · refine waits_of_frame ?_ ?_ h
      · rw [h1, LoadBalance.requeue_hostMap]
      · rw [h1, LoadBalance.requeue_status]

/-- **One call keeps the statuses right**, a reset under its condition. -/
theorem waits_step {op : Op} (h : WaitsForPull rl)
    (hop : op = .resetLbStatus → ∀ k lb, rl.routeLbMap.lookup k = some lb → lb.empty = false)
    (hs : step E rl op = .ok rl') : WaitsForPull rl' :=
  (waits_kept E).step h (fun hreset => waits_reset_iff.2 (hop hreset)) hs

/-! ## Which calls can assert -/

/-- Reading hosts through pointers has one way to fail. -/
theorem mapM_fault {α β : Type} {g : α → Except Fault β} {f : Fault}
    (hg : ∀ a e, g a = .error e → e = .dangling) :
    ∀ l : List α, l.mapM g = .error f → f = .dangling := by
  intro l
  induction l with
  | nil => intro h; cases h
  | cons a l ih =>
    intro h
    rw [List.mapM_cons] at h
    rcases ha : g a with e | b
    · rw [ha] at h; cases h; exact hg a _ ha
    · rw [ha] at h
      rcases hl : l.mapM g with e | bs
      · have := ih
        rw [hl] at this h
        cases h
        exact this rfl
      · rw [hl] at h; cases h

theorem readHost_fault {heap : Heap HostInfo} {a : Addr} {f : Fault}
    (h : readHost heap a = .error f) : f = .dangling := by
  unfold readHost at h
  rcases hr : heap.read a with _ | hi
  · rw [hr] at h; cases h; rfl
  · rw [hr] at h; cases h

theorem callResult_fault {heap : Heap HostInfo} {b : Bool} {a : Addr} {f : Fault}
    (h : LoadBalance.callResult heap b a = .error f) : f = .dangling := by
  unfold LoadBalance.callResult at h
  rcases hr : heap.read a with _ | hi
  · rw [hr] at h; cases h; rfl
  · rw [hr] at h; cases h

theorem commit_fault {lb : LoadBalance} {now : ℤ} {f : Fault} (h : lb.commit E now = .error f) :
    f = .dangling := by
  unfold LoadBalance.commit at h
  split at h
  · cases h
  · have key : ∀ b l, List.mapM (LoadBalance.callResult lb.heap b) l = .error f → f = .dangling :=
      fun b l hl => mapM_fault (fun _ _ he => callResult_fault he) l hl
    rcases hi : lb.idleList.mapM (LoadBalance.callResult lb.heap false) with e | idle
    · rw [hi] at h; cases h; exact key _ _ hi
    · rw [hi] at h
      rcases ho : lb.overloadList.mapM (LoadBalance.callResult lb.heap true) with e | overload
      · have := key true lb.overloadList
        simp only [ho] at h this
        cases h
        exact this rfl
      · simp only [ho] at h; cases h

/-- Deleting hosts has one way to fail. -/
theorem deleteHosts_fault {f : Fault} : ∀ (ks : List UInt64) (lb : LoadBalance),
    Runs.run LoadBalance.deleteHost lb ks = .error f → f = .dangling := by
  intro ks
  induction ks with
  | nil => intro lb h; cases h
  | cons k ks ih =>
    intro lb h
    unfold Runs.run at h
    rcases hd : lb.deleteHost k with e | lb'
    · rw [hd] at h
      cases h
      unfold LoadBalance.deleteHost at hd
      rcases hl : lb.hostMap.lookup k with _ | a
      · rw [hl] at hd; cases hd; rfl
      · rw [hl] at hd
        rcases hr : lb.heap.read a with _ | hi
        · simp only [hr] at hd; cases hd; rfl
        · simp only [hr] at hd
          split at hd <;> cases hd
    · rw [hd] at h
      exact ih lb' h

/-- `update` follows the pointers of the hosts that it deletes, and no others. -/
theorem update_fault {lb : LoadBalance} {now : ℤ} {junk : Addr → Junk} {rsp : Lbrss.GetRouteResponse}
    {f : Fault} (hne : rsp.host ≠ []) (h : lb.update E now junk rsp = .error f) : f = .dangling := by
  unfold LoadBalance.update at h
  rw [if_neg hne] at h
  rcases hd : Runs.run LoadBalance.deleteHost (rsp.host.foldl (LoadBalance.insertHost E junk) lb)
    ((rsp.host.foldl (LoadBalance.insertHost E junk) lb).needDelete rsp) with e | t
  · simp only [hd] at h
    cases h
    exact deleteHosts_fault _ _ hd
  · simp only [hd] at h; cases h

/-- An empty load balancer is being pulled, so the assertion of `get_host` holds. -/
theorem getHost_no_assert {modid cmdid : Int32} {now : ℤ} {junk : Int32} (h : WaitsForPull rl) :
    rl.getHost E modid cmdid now junk ≠ .error .assertFail := by
  intro hr
  have hgot := gotHost (E := E) modid cmdid now junk rl
  rw [hr] at hgot
  cases hgot with
  | assertion hl he hs => exact hs (h _ _ hl he)
  | fault _ _ hp => exact LoadBalance.pickOneHost_fault hp rfl

theorem getRoute_fault {modid cmdid : Int32} {now : ℤ} {junk : Int32} {f : Fault}
    (h : rl.getRoute E modid cmdid now junk = .error f) : f = .dangling := by
  have hgot := gotRoute (E := E) modid cmdid now junk rl
  rw [h] at hgot
  cases hgot with
  | fault _ hm => exact mapM_fault (fun _ _ he => readHost_fault he) _ hm

theorem reportHost_fault {req : Lbrss.ReportRequest} {now ts cts : ℤ} {f : Fault}
    (h : rl.reportHost E req now ts cts = .error f) : f = .dangling := by
  have hrep := reportedHost (E := E) req now ts cts rl
  rw [h] at hrep
  cases hrep with
  | reportFault _ hp => exact LoadBalance.report_fault hp
  | commitFault _ _ hc => exact commit_fault hc

theorem updateHost_fault {modid cmdid : Int32} {now : ℤ} {junk : Addr → Junk}
    {rsp : Lbrss.GetRouteResponse} {f : Fault}
    (h : rl.updateHost E modid cmdid now junk rsp = .error f) : f = .dangling := by
  have hupd := updatedHost (E := E) modid cmdid now junk rsp rl
  rw [h] at hupd
  cases hupd with
  | fault _ hne hu => exact update_fault hne hu

/-- **With the statuses right, no call fails an assertion.** -/
theorem step_no_assert {op : Op} (h : WaitsForPull rl) : step E rl op ≠ .error .assertFail := by
  intro hs
  cases op with
  | getHost modid cmdid now junk => exact getHost_no_assert h (map_error hs)
  | getRoute modid cmdid now junk => cases getRoute_fault (map_error hs)
  | reportHost req now ts cts => cases reportHost_fault (map_error hs)
  | updateHost modid cmdid now junk rsp => cases updateHost_fault (E := E) hs
  | resetLbStatus => cases hs

/-! ## Whole runs -/

/-- **The assertion of `get_host` over any interleaving.** In every reached state each
load balancer with an empty map is `PULLING`, and no call fails an assertion, if and
only if `reset_lb_status` is never called while a load balancer is empty. -/
theorem get_host_assert_iff (E : Env) (ops : List Op) :
    (Runs.Throughout (step E) (fun _ rl => rl.WaitsForPull) new ops ∧
      Runs.Along (step E) (fun _ rl op => step E rl op ≠ .error .assertFail) new ops) ↔
    Runs.Along (step E) (fun _ rl op => op = .resetLbStatus →
      ∀ k lb, rl.routeLbMap.lookup k = some lb → lb.empty = false) new ops := by
  constructor
  · rintro ⟨hall, -⟩ pre op hpre rl hrl rfl
    -- the state after the reset is a reached state too
    have hnext : Runs.run (step E) new (pre ++ [.resetLbStatus]) = .ok rl.resetLbStatus :=
      Runs.run_snoc hrl
    exact waits_reset_iff.1 (hall _ hpre _ hnext)
  · intro hC
    have hall : Runs.Throughout (step E) (fun _ rl => rl.WaitsForPull) new ops :=
      Runs.throughout_of_along waits_new (fun _ _ _ _ h hop hs => waits_step h hop hs) hC
    refine ⟨hall, fun pre op hpre rl hrl => ?_⟩
    exact step_no_assert (hall pre ((List.prefix_append pre [op]).trans hpre) rl hrl)

/-- The failure of a run, if it fails. -/
def faultOf (r : Except Fault RouteLB) : Option Fault :=
  match r with
  | .ok _ => none
  | .error f => some f

/-- A request, a reconnect before the first response, and the next request: the
assertion fails. -/
theorem get_host_assert_fails :
    let ops : List Op := [.getHost 1 1 0 0, .resetLbStatus, .getHost 1 1 0 0]
    ¬ (Runs.Throughout (step Env.shipped) (fun _ rl => rl.WaitsForPull) new ops ∧
      Runs.Along (step Env.shipped) (fun _ rl op => step Env.shipped rl op ≠ .error .assertFail) new ops) := by
  rintro ops ⟨-, h⟩
  have hone : faultOf (Runs.run (step Env.shipped) new [ops[0], ops[1]]) = none := by decide +kernel
  have hall : faultOf (Runs.run (step Env.shipped) new ops) = some .assertFail := by decide +kernel
  rcases hrun : Runs.run (step Env.shipped) new [ops[0], ops[1]] with f | rl
  · rw [hrun] at hone
    cases hone
  · have hstep : Runs.run (step Env.shipped) new ops = step Env.shipped rl ops[2] :=
      Runs.run_snoc hrun
    refine h [ops[0], ops[1]] ops[2] (List.prefix_refl _) rl hrun ?_
    rcases hs : step Env.shipped rl ops[2] with f | rl'
    · rw [hstep, hs] at hall
      cases hall
      rfl
    · rw [hstep, hs] at hall
      cases hall

end RouteLB

end LbRpc
