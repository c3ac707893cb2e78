import LbRpc.Agent.LoadBalance
import Mathlib.Data.List.Count
import Mathlib.Data.List.Perm.Basic

/-!
# What each call of a load balancer can do

One inversion lemma per operation: `picked` for `pick_one_host`, `report_cases` for
`report`, and for `update` the lemmas on its two loops. Later proofs use these and do
not unfold the operations.
-/

namespace LbRpc

namespace LoadBalance

variable {E : Env} {lb lb' : LoadBalance}

/-! ## `pick_one_host` -/

theorem getHostFromList_ok {heap : Heap HostInfo} {l l' : List Addr} {host : Lbrss.HostInfo}
    (h : getHostFromList heap l = .ok (host, l')) :
    ∃ a t hi, l = a :: t ∧ heap.read a = some hi ∧ l' = t ++ [a] ∧
      host = { ip := hi.ip.toInt32, port := hi.port } := by
  cases l with
  | nil => cases h
  | cons a t =>
    cases hr : heap.read a with
    | none => simp only [getHostFromList, hr] at h; cases h
    | some hi => simp only [getHostFromList, hr] at h; cases h; exact ⟨a, t, hi, rfl, hr, rfl, rfl⟩

theorem getHostFromList_cons {heap : Heap HostInfo} {a : Addr} {t : List Addr} {hi : HostInfo}
    (hr : heap.read a = some hi) :
    getHostFromList heap (a :: t) = .ok ({ ip := hi.ip.toInt32, port := hi.port }, t ++ [a]) := by
  simp only [getHostFromList, hr]

/-- **What `pick_one_host` can do.** -/
inductive PickedBy (E : Env) (lb : LoadBalance) : LoadBalance → Picked → Prop
  | overload {a t hi} : lb.overloadList = a :: t → lb.heap.read a = some hi →
      E.config.probeNum ≤ lb.accessCnt →
      PickedBy E lb { lb with accessCnt := 0, overloadList := t ++ [a] }
        ⟨.succ, some .overload, some { ip := hi.ip.toInt32, port := hi.port }⟩
  | reject : lb.idleList = [] → lb.accessCnt < E.config.probeNum →
      PickedBy E lb { lb with accessCnt := lb.accessCnt + 1 } ⟨.overload, none, none⟩
  | idle {a t hi} : lb.idleList = a :: t → lb.heap.read a = some hi →
      (lb.overloadList = [] ∨ lb.accessCnt < E.config.probeNum) →
      PickedBy E lb { lb with accessCnt := lb.accessCnt + 1, idleList := t ++ [a] }
        ⟨.succ, some .idle, some { ip := hi.ip.toInt32, port := hi.port }⟩

theorem serveOverload_ok {p : Picked} (h : lb.serveOverload = .ok (lb', p))
    (hc : E.config.probeNum ≤ lb.accessCnt) : PickedBy E lb lb' p := by
  unfold serveOverload at h
  cases hg : getHostFromList lb.heap lb.overloadList with
  | error f => rw [hg] at h; cases h
  | ok r =>
    obtain ⟨a, t, hi, hl, hr, hl', hh⟩ := getHostFromList_ok hg
    rw [hg] at h
    cases h
    rw [hl', hh]
    exact .overload hl hr hc

theorem picked {p : Picked} (h : lb.pickOneHost E = .ok (lb', p)) : PickedBy E lb lb' p := by
  unfold pickOneHost at h
  split at h
  · rename_i hi
    split at h
    · rename_i hc; exact serveOverload_ok h hc
    · rename_i hc; cases h; exact .reject hi (by simpa using hc)
  · split at h
    · rename_i hc; exact serveOverload_ok h hc.2
    · rename_i hc
      unfold serveIdle at h
      cases hg : getHostFromList lb.heap lb.idleList with
      | error f => rw [hg] at h; cases h
      | ok r =>
        obtain ⟨a, t, hi, hl, hr, hl', hh⟩ := getHostFromList_ok hg
        rw [hg] at h
        cases h
        rw [hl', hh]
        refine .idle hl hr ?_
        by_contra hcon
        rw [not_or, Int32.not_lt] at hcon
        exact hc hcon

/-- A pick only rotates lists and counts. -/
theorem PickedBy.frame {p : Picked} (h : PickedBy E lb lb' p) :
    lb'.hostMap = lb.hostMap ∧ lb'.heap = lb.heap ∧ lb'.status = lb.status ∧
      lb'.idleList.Perm lb.idleList ∧ lb'.overloadList.Perm lb.overloadList := by
  cases h with
  | overload hl _ _ =>
    exact ⟨rfl, rfl, rfl, .refl _, by rw [hl]; exact List.perm_append_singleton _ _⟩
  | reject _ _ => exact ⟨rfl, rfl, rfl, .refl _, .refl _⟩
  | idle hl _ _ =>
    exact ⟨rfl, rfl, rfl, by rw [hl]; exact List.perm_append_singleton _ _, .refl _⟩

/-- The faults of `pick_one_host`: no assertion is among them. -/
theorem pickOneHost_fault {f : Fault} (h : lb.pickOneHost E = .error f) : f ≠ .assertFail := by
  -- both lists are served by `get_host_from_list`
  have key : ∀ l, getHostFromList lb.heap l = .error f → f ≠ .assertFail := by
    intro l hl
    cases l with
    | nil => cases hl; decide
    | cons a t =>
      cases hr : lb.heap.read a with
      | none => simp only [getHostFromList, hr] at hl; cases hl; decide
      | some hi => simp only [getHostFromList, hr] at hl; cases hl
  have hserve : lb.serveOverload = .error f → f ≠ .assertFail := by
    intro ho
    unfold serveOverload at ho
    cases hg : getHostFromList lb.heap lb.overloadList with
    | error g => rw [hg] at ho; cases ho; exact key _ hg
    | ok r => rw [hg] at ho; cases ho
  unfold pickOneHost at h
  split at h
  · split at h
    · exact hserve h
    · cases h
  · split at h
    · exact hserve h
    · unfold serveIdle at h
      cases hg : getHostFromList lb.heap lb.idleList with
      | error g => rw [hg] at h; cases h; exact key _ hg
      | ok r => rw [hg] at h; cases h

/-! ## `report` -/

@[simp] theorem requeue_hostMap (a : Addr) (v : HostInfo.Verdict) :
    (requeue a lb v).hostMap = lb.hostMap := by cases v <;> rfl

@[simp] theorem requeue_heap (a : Addr) (v : HostInfo.Verdict) :
    (requeue a lb v).heap = lb.heap := by cases v <;> rfl

@[simp] theorem requeue_status (a : Addr) (v : HostInfo.Verdict) :
    (requeue a lb v).status = lb.status := by cases v <;> rfl

@[simp] theorem requeue_accessCnt (a : Addr) (v : HostInfo.Verdict) :
    (requeue a lb v).accessCnt = lb.accessCnt := by cases v <;> rfl

/-- **What `report` can do**: nothing for an unknown key, else the host's own part on
the host of the key and the list move of its verdict. -/
theorem report_cases {now ts : ℤ} {ip port rc : Int32} {v : Option HostInfo.Verdict}
    (h : lb.report E now ts ip port rc = .ok (lb', v)) :
    (lb.hostMap.lookup (key ip port) = none ∧ lb' = lb ∧ v = none) ∨
      ∃ a hi, lb.hostMap.lookup (key ip port) = some a ∧ lb.heap.read a = some hi ∧
        lb' = requeue a { lb with heap := lb.heap.modify a fun _ => (hi.report E now ts rc).1 }
          (hi.report E now ts rc).2 ∧ v = some (hi.report E now ts rc).2 := by
  unfold report at h
  cases hl : lb.hostMap.lookup (key ip port) with
  | none => rw [hl] at h; cases h; exact .inl ⟨rfl, rfl, rfl⟩
  | some a =>
    rw [hl] at h
    cases hr : lb.heap.read a with
    | none => simp only [hr] at h; cases h
    | some hi => simp only [hr] at h; cases h; exact .inr ⟨a, hi, rfl, hr, rfl, rfl⟩

/-- `report` never changes the map. -/
theorem report_hostMap {now ts : ℤ} {ip port rc : Int32} {v : Option HostInfo.Verdict}
    (h : lb.report E now ts ip port rc = .ok (lb', v)) : lb'.hostMap = lb.hostMap := by
  rcases report_cases h with ⟨-, rfl, -⟩ | ⟨a, hi, -, -, rfl, -⟩
  · rfl
  · exact requeue_hostMap _ _

/-- `report` only fails on a dangling pointer. -/
theorem report_fault {now ts : ℤ} {ip port rc : Int32} {f : Fault}
    (h : lb.report E now ts ip port rc = .error f) : f = .dangling := by
  unfold report at h
  cases hl : lb.hostMap.lookup (key ip port) with
  | none => rw [hl] at h; cases h
  | some a =>
    rw [hl] at h
    cases hr : lb.heap.read a with
    | none => simp only [hr] at h; cases h; rfl
    | some hi => simp only [hr] at h; cases h

/-! ## `update` -/

theorem mem_insertHost {junk : Addr → Junk} {h : Lbrss.HostInfo} {k : UInt64} :
    k ∈ (insertHost E junk lb h).hostMap ↔ k = key h.ip h.port ∨ k ∈ lb.hostMap := by
  unfold insertHost
  split
  · rename_i hs
    rw [AList.lookup_isSome] at hs
    constructor
    · exact Or.inr
    · rintro (rfl | hk)
      · exact hs
      · exact hk
  · exact AList.mem_insert _

theorem mem_insertHosts {junk : Addr → Junk} {k : UInt64} (hs : List Lbrss.HostInfo) :
    ∀ lb : LoadBalance, k ∈ (hs.foldl (insertHost E junk) lb).hostMap ↔
      (∃ h ∈ hs, key h.ip h.port = k) ∨ k ∈ lb.hostMap := by
  induction hs with
  | nil => intro lb; simp
  | cons h hs ih =>
    intro lb
    rw [List.foldl_cons, ih, mem_insertHost]
    simp only [List.mem_cons, exists_eq_or_imp]
    rw [or_left_comm, or_assoc, eq_comm]

/-- **What `deleteHost` can do.** -/
theorem deleteHost_cases {k : UInt64} (h : lb.deleteHost k = .ok lb') :
    ∃ a hi, lb.hostMap.lookup k = some a ∧ lb.heap.read a = some hi ∧
      lb' = if hi.overload = true then
        { lb with overloadList := lb.overloadList.filter (· ≠ a), heap := lb.heap.free a }
      else { lb with idleList := lb.idleList.filter (· ≠ a), heap := lb.heap.free a } := by
  unfold deleteHost at h
  cases hl : lb.hostMap.lookup k with
  | none => rw [hl] at h; cases h
  | some a =>
    rw [hl] at h
    cases hr : lb.heap.read a with
    | none => simp only [hr] at h; cases h
    | some hi =>
      simp only [hr] at h
      refine ⟨a, hi, rfl, hr, ?_⟩
      split at h <;> rename_i ho <;> cases h <;> simp [ho]

/-- The delete loop leaves the map, the status and the counter alone, and only removes
hosts from the heap. -/
theorem deleteHosts_frame {ks : List UInt64} (h : Runs.run deleteHost lb ks = .ok lb') :
    lb'.hostMap = lb.hostMap ∧ lb'.accessCnt = lb.accessCnt ∧
      ∀ a hi, lb'.heap.read a = some hi → lb.heap.read a = some hi := by
  refine Runs.run_inv (I := fun t => t.hostMap = lb.hostMap ∧ t.accessCnt = lb.accessCnt ∧
    ∀ a hi, t.heap.read a = some hi → lb.heap.read a = some hi) ?_ ⟨rfl, rfl, fun _ _ => id⟩ h
  intro t k u ⟨h1, h2, h3⟩ hu
  -- the flag only decides which list the host leaves
  obtain ⟨a, hi, -, -, rfl⟩ := deleteHost_cases hu
  have hfree : ∀ b w, (t.heap.free a).read b = some w → lb.heap.read b = some w := by
    intro b w hb
    by_cases hba : b = a
    · subst hba; rw [Heap.read_free_self] at hb; cases hb
    · rw [Heap.read_free_ne hba] at hb; exact h3 b w hb
  split <;> exact ⟨h1, h2, hfree⟩

/-- **What `update` can do**: it asserts a host, inserts, deletes, and becomes `NEW`. -/
theorem update_cases {now : ℤ} {junk : Addr → Junk} {rsp : Lbrss.GetRouteResponse}
    (h : lb.update E now junk rsp = .ok lb') :
    rsp.host ≠ [] ∧ ∃ t, Runs.run deleteHost (rsp.host.foldl (insertHost E junk) lb)
        ((rsp.host.foldl (insertHost E junk) lb).needDelete rsp) = .ok t ∧
      lb' = { t with lastUpdateTime := now, status := .new } := by
  unfold update at h
  split at h
  · cases h
  · rename_i hne
    refine ⟨hne, ?_⟩
    cases hd : Runs.run deleteHost (rsp.host.foldl (insertHost E junk) lb)
        ((rsp.host.foldl (insertHost E junk) lb).needDelete rsp) with
    | error f => simp only [hd] at h; cases h
    | ok t => simp only [hd] at h; cases h; exact ⟨t, rfl, rfl⟩

/-- **`update` never takes a key out of the map**, whatever the response names. -/
theorem mem_update {now : ℤ} {junk : Addr → Junk} {rsp : Lbrss.GetRouteResponse}
    (h : lb.update E now junk rsp = .ok lb') (k : UInt64) :
    k ∈ lb'.hostMap ↔ k ∈ remoteHosts rsp ∨ k ∈ lb.hostMap := by
  obtain ⟨-, t, ht, rfl⟩ := update_cases h
  have hm := (deleteHosts_frame ht).1
  show k ∈ t.hostMap ↔ _
  rw [hm, mem_insertHosts]
  simp [remoteHosts]

/-! ## One host under a call -/

/-- A host that lives after the insert loop lived before it or is a new host of the
response. -/
theorem read_insertHosts {junk : Addr → Junk} (gs : List Lbrss.HostInfo) :
    ∀ lb : LoadBalance, ∀ a hi, (gs.foldl (insertHost E junk) lb).heap.read a = some hi →
      lb.heap.read a = some hi ∨ lb.heap.read a = none ∧ ∃ g ∈ gs,
        hi = HostInfo.new g.ip.toUInt32 g.port E.config.initSuccCnt.toUInt32 (junk a) := by
  induction gs with
  | nil => exact fun _ _ _ h => Or.inl h
  | cons g gs ih =>
    intro lb a hi h
    rw [List.foldl_cons] at h
    have hone : ∀ w, (insertHost E junk lb g).heap.read a = some w → lb.heap.read a = some w ∨
        lb.heap.read a = none ∧
          w = HostInfo.new g.ip.toUInt32 g.port E.config.initSuccCnt.toUInt32 (junk a) := by
      intro w hw
      unfold insertHost at hw
      split at hw
      · exact Or.inl hw
      · rcases Heap.read_alloc_cases hw with ⟨rfl, rfl⟩ | hw'
        · exact Or.inr ⟨Heap.read_next, rfl⟩
        · exact Or.inl hw'
    rcases ih _ a hi h with h | ⟨hn, g', hg', rfl⟩
    · rcases hone hi h with h | ⟨hn, h⟩
      · exact Or.inl h
      · exact Or.inr ⟨hn, g, List.mem_cons_self, h⟩
    · refine Or.inr ⟨?_, g', List.mem_cons_of_mem _ hg', rfl⟩
      rcases hl : lb.heap.read a with _ | w
      · rfl
      · -- an insertion never takes a host away
        have hkeep : (insertHost E junk lb g).heap.read a = some w := by
          unfold insertHost
          split
          · exact hl
          · exact Heap.read_alloc_of_read hl
        rw [hkeep] at hn
        cases hn

theorem step_report {now ts : ℤ} {ip port rc : Int32}
    (h : step E lb (.report now ts ip port rc) = .ok lb') :
    ∃ v, lb.report E now ts ip port rc = .ok (lb', v) := by
  rcases hrep : lb.report E now ts ip port rc with f | ⟨u, v⟩
  · simp only [step, hrep] at h; cases h
  · simp only [step, hrep] at h; cases h; exact ⟨v, rfl⟩

theorem step_pick (h : step E lb .pickOneHost = .ok lb') : ∃ p, lb.pickOneHost E = .ok (lb', p) := by
  rcases hp : lb.pickOneHost E with f | ⟨u, p⟩
  · simp only [step, hp] at h; cases h
  · simp only [step, hp] at h; cases h; exact ⟨p, rfl⟩

/-- **What one call does to a host that lives after it.** -/
inductive HostAfter (E : Env) (lb : LoadBalance) (a : Addr) : Op → HostInfo → Prop
  | same {op hi} : lb.heap.read a = some hi → HostAfter E lb a op hi
  | reported {now ts ip port rc hi} : lb.hostMap.lookup (key ip port) = some a →
      lb.heap.read a = some hi →
      HostAfter E lb a (.report now ts ip port rc) (hi.report E now ts rc).1
  | added {now junk rsp g} : lb.heap.read a = none → g ∈ rsp.host →
      HostAfter E lb a (.update now junk rsp)
        (HostInfo.new g.ip.toUInt32 g.port E.config.initSuccCnt.toUInt32 (junk a))

theorem step_host {op : Op} (h : step E lb op = .ok lb') {a : Addr} {hi : HostInfo}
    (hr : lb'.heap.read a = some hi) : HostAfter E lb a op hi := by
  rcases op with ⟨now, junk, rsp⟩ | ⟨now, ts, ip, port, rc⟩ | _ | _
  · obtain ⟨-, t, ht, rfl⟩ := update_cases h
    have hread : t.heap.read a = some hi := hr
    rcases read_insertHosts _ _ _ _ ((deleteHosts_frame ht).2.2 a hi hread) with h | ⟨hn, g, hg, rfl⟩
    · exact .same h
    · exact .added hn hg
  · obtain ⟨v, hrep⟩ := step_report h
    rcases report_cases hrep with ⟨-, h1, -⟩ | ⟨b, w, hk, hb, h1, -⟩
    · rw [h1] at hr; exact .same hr
    · rw [h1, requeue_heap] at hr
      rcases Heap.read_modify_known hb hr with ⟨rfl, rfl⟩ | hr'
      · exact .reported hk hb
      · exact .same hr'
  · cases h; exact .same hr
  · obtain ⟨p, hp⟩ := step_pick h
    rw [(picked hp).frame.2.1] at hr
    exact .same hr

end LoadBalance

end LbRpc
