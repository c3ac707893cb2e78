import LbRpc.Proof.LoadBalanceStep

/-!
# The map, the two lists and the overload flags stay in step

`Placed lb a`: the host behind `a` is live, sits once in the two lists together, and
is in the overload list exactly when its flag says so.

* `HostsOK`: every pointer of the map is placed and the lists hold nothing else. Kept
  by `report`, `get_all_hosts` and `pick_one_host`, and by an `update` whose response
  names every key the map already has.
* `hosts_in_step_iff`: over a whole run the map is the latest response, with every
  host placed and no dangling access, **exactly when** no response leaves out a key
  of the one before. `update` deletes the host of a dropped key but leaves its entry
  in `host_map_`.
-/

namespace LbRpc

namespace LoadBalance

variable {E : Env} {lb lb' : LoadBalance}

/-- The host behind `a` is live, occurs once in the two lists together, and is in the
overload list exactly when its flag is set. -/
def Placed (lb : LoadBalance) (a : Addr) : Prop :=
  ∃ hi, lb.heap.read a = some hi ∧ (lb.idleList ++ lb.overloadList).count a = 1 ∧
    (a ∈ lb.overloadList ↔ hi.overload = true)

/-- Every pointer of the map is placed, and the lists hold only such pointers. -/
structure HostsOK (lb : LoadBalance) : Prop where
  placed : ∀ k a, lb.hostMap.lookup k = some a → lb.Placed a
  listed : ∀ a ∈ lb.idleList ++ lb.overloadList, ∃ k, lb.hostMap.lookup k = some a

/-- The map has exactly the keys `ks`, and its hosts are placed. -/
structure InStep (lb : LoadBalance) (ks : List UInt64) : Prop where
  keys : ∀ k, k ∈ lb.hostMap ↔ k ∈ ks
  placed : ∀ k a, lb.hostMap.lookup k = some a → lb.Placed a

theorem HostsOK.live (h : HostsOK lb) {a : Addr} (ha : a ∈ lb.idleList ++ lb.overloadList) :
    ∃ hi, lb.heap.read a = some hi := by
  obtain ⟨k, hk⟩ := h.listed a ha
  obtain ⟨hi, hr, -⟩ := h.placed k a hk
  exact ⟨hi, hr⟩

theorem hostsOK_new (modid cmdid accessCnt : Int32) : HostsOK (new modid cmdid accessCnt) :=
  ⟨fun k a h => by simp [new] at h, fun a h => by simp [new] at h⟩

/-! ## `pick_one_host` -/

/-- A pick rearranges each list, so every placed host stays placed. -/
theorem PickedBy.placed {p : Picked} (hp : PickedBy E lb lb' p) {a : Addr} (h : lb.Placed a) :
    lb'.Placed a := by
  obtain ⟨-, hh, -, hi, ho⟩ := hp.frame
  obtain ⟨w, hr, hc, hf⟩ := h
  have hcount : (lb'.idleList ++ lb'.overloadList).count a = 1 := by
    rw [(hi.append ho).count_eq]
    exact hc
  exact ⟨w, by rw [hh]; exact hr, hcount, by rw [ho.mem_iff]; exact hf⟩

theorem PickedBy.hostsOK {p : Picked} (hp : PickedBy E lb lb' p) (h : HostsOK lb) : HostsOK lb' := by
  obtain ⟨hm, -, -, hi, ho⟩ := hp.frame
  refine ⟨fun k a hk => ?_, fun a ha => ?_⟩
  · rw [hm] at hk
    exact hp.placed (h.placed k a hk)
  · rw [hm]
    exact h.listed a ((hi.append ho).mem_iff.1 ha)

theorem getHostFromList_of_live {heap : Heap HostInfo} {l : List Addr} (hl : l ≠ [])
    (hlive : ∀ a ∈ l, ∃ hi, heap.read a = some hi) : ∃ r, getHostFromList heap l = .ok r := by
  obtain ⟨a, t, rfl⟩ := List.exists_cons_of_ne_nil hl
  obtain ⟨hi, hr⟩ := hlive a List.mem_cons_self
  exact ⟨_, getHostFromList_cons hr⟩

theorem HostsOK.serveOverload (h : HostsOK lb) (hl : lb.overloadList ≠ []) :
    ∃ r, lb.serveOverload = .ok r := by
  obtain ⟨r, hr⟩ := getHostFromList_of_live hl fun a ha => h.live (List.mem_append_right _ ha)
  exact ⟨_, by unfold LoadBalance.serveOverload; rw [hr]⟩

/-- With hosts in the map, `pick_one_host` has a host to take or refuses: it never
takes the front of an empty list. -/
theorem HostsOK.pickOneHost (h : HostsOK lb) (he : lb.empty = false) :
    ∃ r, lb.pickOneHost E = .ok r := by
  unfold LoadBalance.pickOneHost
  split
  · rename_i hidle
    split
    · -- the map has a host, and it can only be in the overload list
      apply h.serveOverload
      intro hover
      unfold LoadBalance.empty at he
      obtain ⟨k, hk⟩ : ∃ k, k ∈ lb.hostMap.keys := by
        cases hks : lb.hostMap.keys with
        | nil => rw [hks] at he; simp at he
        | cons k ks => exact ⟨k, List.mem_cons_self⟩
      obtain ⟨a, ha⟩ := Option.isSome_iff_exists.1 (AList.lookup_isSome.2 (AList.mem_keys.2 hk))
      obtain ⟨hi, -, hc, -⟩ := h.placed k a ha
      rw [hidle, hover] at hc
      simp at hc
    · exact ⟨_, rfl⟩
  · rename_i hidle
    split
    · rename_i hc; exact h.serveOverload hc.1
    · obtain ⟨r, hr⟩ := getHostFromList_of_live hidle
        fun a ha => h.live (List.mem_append_left _ ha)
      exact ⟨_, by unfold LoadBalance.serveIdle; rw [hr]⟩

/-! ## `report` -/

theorem count_filter_ne (l : List Addr) (a b : Addr) :
    (l.filter (· ≠ a)).count b = if b = a then 0 else l.count b := by
  split
  · rename_i h; subst h; simp [List.count_eq_zero]
  · rename_i h; exact List.count_filter (by simpa using h)

/-- A host that was not in the overload list is placed there by the move. -/
theorem placed_toOverload {a : Addr} {hi : HostInfo} (hr : lb.heap.read a = some hi)
    (hf : hi.overload = true) (hn : a ∉ lb.overloadList) :
    Placed { lb with idleList := lb.idleList.filter (· ≠ a), overloadList := lb.overloadList ++ [a] } a := by
  refine ⟨hi, hr, ?_, by simp [hf]⟩
  have h0 := List.count_eq_zero_of_not_mem hn
  simp only [List.count_append, count_filter_ne, if_true, List.count_singleton_self, h0]

/-- A host that was not in the idle list is placed there by the move. -/
theorem placed_toIdle {a : Addr} {hi : HostInfo} (hr : lb.heap.read a = some hi)
    (hf : hi.overload = false) (hn : a ∉ lb.idleList) :
    Placed { lb with overloadList := lb.overloadList.filter (· ≠ a), idleList := lb.idleList ++ [a] } a := by
  refine ⟨hi, hr, ?_, by simp [hf]⟩
  have h0 := List.count_eq_zero_of_not_mem hn
  simp only [List.count_append, count_filter_ne, if_true, List.count_singleton_self, h0]

/-- A move of `a` leaves every other host where it is. -/
theorem Placed.requeue_ne {a b : Addr} {f : HostInfo → HostInfo} (h : lb.Placed b) (hab : b ≠ a)
    (v : HostInfo.Verdict) : (requeue a { lb with heap := lb.heap.modify a f } v).Placed b := by
  obtain ⟨hi, hr, hc, hf⟩ := h
  refine ⟨hi, ?_, ?_, ?_⟩
  · rw [requeue_heap]
    exact (Heap.read_modify_ne hab).trans hr
  · rw [← hc]
    cases v <;> simp only [requeue, List.count_append, count_filter_ne, if_neg hab,
      List.count_singleton, beq_iff_eq, if_neg (Ne.symm hab), Nat.add_zero]
  · rw [← hf]
    cases v <;> simp [requeue, hab]

/-- **The reported host is placed by its new flag.** -/
theorem Placed.requeue_self {a : Addr} {hi : HostInfo} (h : lb.Placed a) (hr : lb.heap.read a = some hi)
    (now ts : ℤ) (rc : Int32) :
    (requeue a { lb with heap := lb.heap.modify a fun _ => (hi.report E now ts rc).1 }
      (hi.report E now ts rc).2).Placed a := by
  obtain ⟨w, hw, hc, hf⟩ := h
  rw [hr] at hw
  cases hw
  -- one report moves the host between the lists exactly when it flips the flag
  have hrep := hi.reported E now ts rc
  generalize (hi.report E now ts rc).1 = hi' at hrep ⊢
  generalize (hi.report E now ts rc).2 = v at hrep ⊢
  have hr' : (lb.heap.modify a fun _ => hi').read a = some hi' := by
    rw [Heap.read_modify_self, hr]; rfl
  -- an idle host is not in the overload list, an overloaded one not in the idle list
  have hover : hi.overload = false → a ∉ lb.overloadList := fun ho hm => by
    rw [hf.1 hm] at ho; cases ho
  have hidle : hi.overload = true → a ∉ lb.idleList := fun ho hm => by
    have h1 := List.count_pos_iff.2 hm
    have h2 := List.count_pos_iff.2 (hf.2 ho)
    rw [List.count_append] at hc
    omega
  cases hrep with
  | toOverload ho _ _ => exact placed_toOverload hr' rfl (hover ho)
  | toIdle ho _ _ => exact placed_toIdle hr' rfl (hidle ho)
  | windowOverload ho _ _ _ => exact placed_toOverload hr' rfl (hover ho)
  | windowReset ho _ _ _ => exact ⟨_, hr', hc, hf.trans (by rw [ho]; rfl)⟩
  | timeoutIdle ho _ _ => exact placed_toIdle hr' rfl (hidle ho)
  | stayIdle ho _ _ => exact ⟨_, hr', hc, hf.trans (by rw [HostInfo.count_overload])⟩
  | stayOverload ho _ _ => exact ⟨_, hr', hc, hf.trans (by rw [HostInfo.count_overload])⟩

/-- A move takes no host out of the two lists together and brings none in but its own. -/
theorem mem_requeue {a b : Addr} {v : HostInfo.Verdict}
    (h : b ∈ (requeue a lb v).idleList ++ (requeue a lb v).overloadList) :
    b = a ∨ b ∈ lb.idleList ++ lb.overloadList := by
  cases v <;> simp [requeue] at h ⊢ <;> tauto

/-- A report keeps every placed host placed, the reported one included. -/
theorem Placed.report {b : Addr} (h : lb.Placed b) {now ts : ℤ} {ip port rc : Int32}
    {v : Option HostInfo.Verdict} (hr : lb.report E now ts ip port rc = .ok (lb', v)) : lb'.Placed b := by
  rcases report_cases hr with ⟨-, rfl, -⟩ | ⟨a, hi, hk, hrd, rfl, -⟩
  · exact h
  -- `b` may be the reported host under another key
  by_cases hba : b = a
  · subst hba
    exact h.requeue_self hrd now ts rc
  · exact h.requeue_ne hba _

/-- After a report the lists still hold hosts of the map only. -/
theorem listed_report (h : ∀ a ∈ lb.idleList ++ lb.overloadList, ∃ k, lb.hostMap.lookup k = some a)
    {now ts : ℤ} {ip port rc : Int32} {v : Option HostInfo.Verdict}
    (hr : lb.report E now ts ip port rc = .ok (lb', v)) :
    ∀ a ∈ lb'.idleList ++ lb'.overloadList, ∃ k, lb'.hostMap.lookup k = some a := by
  intro b hb
  rw [report_hostMap hr]
  rcases report_cases hr with ⟨-, rfl, -⟩ | ⟨a, hi, hk, hrd, rfl, -⟩
  · exact h b hb
  · rcases mem_requeue hb with rfl | hb
    · exact ⟨_, hk⟩
    · exact h b hb

theorem HostsOK.report (h : HostsOK lb) {now ts : ℤ} {ip port rc : Int32}
    {v : Option HostInfo.Verdict} (hr : lb.report E now ts ip port rc = .ok (lb', v)) :
    HostsOK lb' := by
  refine ⟨fun k b hb => ?_, listed_report h.listed hr⟩
  rw [report_hostMap hr] at hb
  exact (h.placed k b hb).report hr

/-- The host of a known key is live, so `report` has a result. -/
theorem report_ok (h : ∀ k a, lb.hostMap.lookup k = some a → lb.Placed a) (now ts : ℤ)
    (ip port rc : Int32) : ∃ u v, lb.report E now ts ip port rc = .ok (u, v) := by
  unfold LoadBalance.report
  cases hk : lb.hostMap.lookup (key ip port) with
  | none => exact ⟨_, _, rfl⟩
  | some a =>
    obtain ⟨hi, hr, -⟩ := h _ a hk
    simp only [hr]
    exact ⟨_, _, rfl⟩

/-! ## `update` -/

/-- After an insertion the lists still hold hosts of the map only. -/
theorem listed_insertHost (h : ∀ a ∈ lb.idleList ++ lb.overloadList, ∃ k, lb.hostMap.lookup k = some a)
    (junk : Addr → Junk) (g : Lbrss.HostInfo) :
    ∀ a ∈ (insertHost E junk lb g).idleList ++ (insertHost E junk lb g).overloadList,
      ∃ k, (insertHost E junk lb g).hostMap.lookup k = some a := by
  unfold insertHost
  split
  · exact h
  rename_i hnew
  intro a ha
  simp only [List.mem_append, List.mem_singleton] at ha
  by_cases hn : a = lb.heap.next
  · exact ⟨_, by rw [hn]; exact AList.lookup_insert _⟩
  · obtain ⟨k, hk⟩ := h a (by simp only [List.mem_append]; tauto)
    refine ⟨k, ?_⟩
    dsimp only
    rw [AList.lookup_insert_ne (fun hkg => ?_)]
    · exact hk
    · rw [hkg] at hk
      rw [hk] at hnew
      simp at hnew

/-- A new host enters the map and the idle list together. -/
theorem HostsOK.insertHost (h : HostsOK lb) (junk : Addr → Junk) (g : Lbrss.HostInfo) :
    HostsOK (lb.insertHost E junk g) := by
  have hlisted := listed_insertHost (E := E) h.listed junk g
  unfold LoadBalance.insertHost at hlisted ⊢
  split
  · exact h
  rename_i hnew
  -- the address of the new host is in no list yet
  have hfresh : lb.heap.next ∉ lb.idleList ++ lb.overloadList := fun hm => by
    obtain ⟨w, hw⟩ := h.live hm
    rw [Heap.read_next] at hw; cases hw
  have hc0 := List.count_eq_zero_of_not_mem hfresh
  rw [List.count_append] at hc0
  rw [if_neg hnew] at hlisted
  refine ⟨fun k a hk => ?_, hlisted⟩
  · dsimp only at hk
    by_cases hkg : k = key g.ip g.port
    · subst hkg
      rw [AList.lookup_insert] at hk
      cases hk
      refine ⟨_, Heap.read_alloc_next, ?_, ?_⟩
      · simp only [List.count_append, List.count_singleton_self]; omega
      · constructor
        · exact fun hm => absurd (List.mem_append_right _ hm) hfresh
        · exact fun hf => by cases hf
    · rw [AList.lookup_insert_ne hkg] at hk
      obtain ⟨w, hr, hc, hf⟩ := h.placed k a hk
      refine ⟨w, Heap.read_alloc_of_read hr, ?_, hf⟩
      have hne : lb.heap.next ≠ a := (Heap.lt_next hr).ne'
      rw [List.count_append] at hc
      simp only [List.count_append, List.count_singleton, beq_iff_eq, if_neg hne]
      omega

theorem HostsOK.insertHosts (junk : Addr → Junk) (gs : List Lbrss.HostInfo) :
    ∀ lb : LoadBalance, HostsOK lb → HostsOK (gs.foldl (LoadBalance.insertHost E junk) lb) := by
  induction gs with
  | nil => exact fun _ h => h
  | cons g gs ih => exact fun lb h => ih _ (h.insertHost junk g)

/-- An `update` that names every key of the map deletes nothing. -/
theorem HostsOK.update (h : HostsOK lb) {rsp : Lbrss.GetRouteResponse} (hne : rsp.host ≠ [])
    (hsub : ∀ k ∈ lb.hostMap, k ∈ remoteHosts rsp) (now : ℤ) (junk : Addr → Junk) :
    ∃ u, lb.update E now junk rsp = .ok u ∧ HostsOK u := by
  have hnone : (rsp.host.foldl (LoadBalance.insertHost E junk) lb).needDelete rsp = [] := by
    unfold needDelete
    have : ((rsp.host.foldl (LoadBalance.insertHost E junk) lb).hostMap.keys.filter
        (· ∉ remoteHosts rsp)) = [] := by
      rw [List.filter_eq_nil_iff]
      intro k hk
      have hk' := (mem_insertHosts rsp.host lb).1 (AList.mem_keys.2 hk)
      have : k ∈ remoteHosts rsp := by
        rcases hk' with ⟨g, hg, rfl⟩ | hk'
        · exact List.mem_map_of_mem hg
        · exact hsub k hk'
      simpa using this
    rw [this]; rfl
  have hok := HostsOK.insertHosts (E := E) junk rsp.host lb h
  unfold LoadBalance.update
  rw [if_neg hne]
  simp only [hnone, Runs.run_nil]
  exact ⟨_, rfl, ⟨hok.placed, hok.listed⟩⟩

/-! ## Whole runs -/

/-- The keys of the latest response after one more call. -/
def latestAfter (ks : List UInt64) : Op → List UInt64
  | .update _ _ rsp => remoteHosts rsp
  | _ => ks

/-- The keys of the latest response, none before the first. -/
def latest (ops : List Op) : List UInt64 := ops.foldl latestAfter []

theorem latest_snoc (ops : List Op) (op : Op) :
    latest (ops ++ [op]) = latestAfter (latest ops) op := by
  simp [latest]

/-- The calls the agent makes: a response that is applied names a host, and a pick is
made while the map is not empty. -/
def Allowed (_ : List Op) (lb : LoadBalance) : Op → Prop
  | .update _ _ rsp => rsp.host ≠ []
  | .pickOneHost => lb.empty = false
  | _ => True

/-- No response leaves out a key of the one before. -/
def KeepsKeys (ops : List Op) : Prop :=
  ∀ pre now junk rsp, pre ++ [.update now junk rsp] <+: ops → ∀ k ∈ latest pre, k ∈ remoteHosts rsp

/-- One allowed call, with `update` naming the keys the map has, keeps the hosts in step. -/
theorem step_inStep {ks : List UInt64} {op : Op} (hin : lb.InStep ks) (hok : HostsOK lb)
    (hop : Allowed [] lb op)
    (hkeep : ∀ now junk rsp, op = .update now junk rsp → ∀ k ∈ ks, k ∈ remoteHosts rsp) :
    ∃ u, step E lb op = .ok u ∧ HostsOK u ∧
      u.InStep (latestAfter ks op) := by
  cases op with
  | update now junk rsp =>
    have hsub : ∀ k ∈ lb.hostMap, k ∈ remoteHosts rsp := fun k hk =>
      hkeep now junk rsp rfl k ((hin.keys k).1 hk)
    obtain ⟨u, hu, hok'⟩ := hok.update (E := E) hop hsub now junk
    refine ⟨u, hu, hok', ⟨fun k => ?_, hok'.placed⟩⟩
    rw [mem_update hu]
    exact ⟨fun h => h.elim id (hsub k), Or.inl⟩
  | report now ts ip port rc =>
    obtain ⟨u, v, hr⟩ := report_ok (E := E) hok.placed now ts ip port rc
    have hok' := hok.report hr
    refine ⟨u, by simp only [step, hr], hok', ⟨?_, hok'.placed⟩⟩
    rw [report_hostMap hr]
    exact hin.keys
  | getAllHosts => exact ⟨lb, rfl, hok, hin⟩
  | pickOneHost =>
    obtain ⟨r, hr⟩ := hok.pickOneHost (E := E) hop
    have hp := picked hr
    refine ⟨r.1, by simp only [step, hr], hp.hostsOK hok, ⟨?_, (hp.hostsOK hok).placed⟩⟩
    rw [hp.frame.1]; exact hin.keys

/-- **The map, the lists and the flags over a whole run.** From the constructor on, in
every state reached by allowed calls the map has exactly the keys of the latest
response with every host live and placed, and no call touches a deleted host or the
front of an empty list, if and only if no response drops a key of the one before. -/
theorem hosts_in_step_iff (E : Env) (modid cmdid accessCnt : Int32) (ops : List Op)
    (hallowed : Runs.Along (step E) Allowed (new modid cmdid accessCnt) ops) :
    Runs.Always (step E) (fun pre lb => lb.InStep (latest pre)) (new modid cmdid accessCnt) ops ↔
      KeepsKeys ops := by
  have hinit : (new modid cmdid accessCnt).InStep (latest []) :=
    ⟨fun k => by simp [new, latest], (hostsOK_new _ _ _).placed⟩
  have hiff : Runs.Always (step E) (fun pre lb => lb.InStep (latest pre)) (new modid cmdid accessCnt) ops ↔
      Runs.Along (step E) (fun pre _ op => ∀ now junk rsp, op = .update now junk rsp →
        ∀ k ∈ latest pre, k ∈ remoteHosts rsp) (new modid cmdid accessCnt) ops := by
    refine Runs.always_iff (Q := fun pre lb => lb.InStep (latest pre) ∧ HostsOK lb)
      (fun _ _ h => h.1) ⟨hinit, hostsOK_new _ _ _⟩ ?_ ?_
    · intro pre op hpre t ht hQ hC
      obtain ⟨u, hu, hok, hin⟩ := step_inStep hQ.1 hQ.2 (hallowed pre op hpre t ht) hC
      exact ⟨u, hu, by rw [latest_snoc]; exact hin, hok⟩
    · -- after the step the old keys are still in the map, so the response had them
      rintro pre op hpre t u hP hu hP' now junk rsp rfl k hk
      have hkt : k ∈ u.hostMap := (mem_update hu k).2 (Or.inr ((hP.keys k).2 hk))
      rw [latest_snoc] at hP'
      exact (hP'.keys k).1 hkt
  constructor
  · intro hall pre now junk rsp hpre
    obtain ⟨t, ht, -⟩ := hall pre ((List.prefix_append pre _).trans hpre)
    exact hiff.1 hall pre _ hpre t ht now junk rsp rfl
  · intro hK
    refine hiff.2 ?_
    rintro pre op hpre t - now junk rsp rfl
    exact hK pre now junk rsp hpre

/-- Two hosts, a report, a pick, then the same two hosts again. -/
theorem hosts_in_step_two :
    let a : Lbrss.HostInfo := ⟨1, 80⟩
    let b : Lbrss.HostInfo := ⟨2, 80⟩
    let ops : List Op := [.update 0 (fun _ => ⟨0, 0⟩) ⟨1, 1, [a, b]⟩, .report 1 1 1 80 1, .pickOneHost,
      .getAllHosts, .update 2 (fun _ => ⟨0, 0⟩) ⟨1, 1, [b, a]⟩]
    Runs.Always (step Env.shipped) (fun pre lb => lb.InStep (latest pre)) (new 1 1 0) ops ↔
      KeepsKeys ops := by
  intro a b ops
  refine hosts_in_step_iff Env.shipped 1 1 0 ops ?_
  refine Runs.along_cons.2 ⟨by simp [Allowed], fun t ht => ?_⟩
  refine Runs.along_cons.2 ⟨trivial, fun u hu => ?_⟩
  refine Runs.along_cons.2 ⟨?_, fun v _ => ?_⟩
  · have hr : Runs.run (step Env.shipped) (new 1 1 0) [ops[0], ops[1]] = .ok u :=
      Runs.run_cons_ok.2 ⟨t, ht, Runs.run_cons_ok.2 ⟨u, hu, rfl⟩⟩
    have he : (Runs.run (step Env.shipped) (new 1 1 0) [ops[0], ops[1]]).toOption.map empty =
        some false := by decide +kernel
    rw [hr] at he
    exact Option.some.inj he
  · refine Runs.along_cons.2 ⟨trivial, fun w _ => ?_⟩
    exact Runs.along_cons.2 ⟨by simp [Allowed], fun _ _ => Runs.along_nil⟩

/-- A response that names another host only: the dropped key stays in the map, and its
pointer dangles. -/
theorem hosts_in_step_fails :
    let ops : List Op := [.update 0 (fun _ => ⟨0, 0⟩) ⟨1, 1, [⟨1, 80⟩]⟩,
      .update 1 (fun _ => ⟨0, 0⟩) ⟨1, 1, [⟨2, 80⟩]⟩]
    Runs.Along (step Env.shipped) Allowed (new 1 1 0) ops ∧
      ¬ Runs.Always (step Env.shipped) (fun pre lb => lb.InStep (latest pre)) (new 1 1 0) ops := by
  intro ops
  constructor
  · refine Runs.along_cons.2 ⟨by simp [Allowed], fun t _ => ?_⟩
    exact Runs.along_cons.2 ⟨by simp [Allowed], fun _ _ => Runs.along_nil⟩
  · intro h
    obtain ⟨t, ht, hin⟩ := h ops (List.prefix_refl _)
    have hk : (Runs.run (step Env.shipped) (new 1 1 0) ops).toOption.map
        (fun lb => decide (key 1 80 ∈ lb.hostMap.keys)) = some true := by decide +kernel
    rw [ht] at hk
    have hdec : decide (key 1 80 ∈ t.hostMap.keys) = true := Option.some.inj hk
    have hmem : key 1 80 ∈ t.hostMap := AList.mem_keys.2 (by simpa only [decide_eq_true_eq] using hdec)
    have hlat : key 1 80 ∈ latest ops := (hin.keys _).1 hmem
    exact absurd hlat (by decide +kernel)

end LoadBalance

end LbRpc
