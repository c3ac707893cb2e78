import LbRpc.Proof.Hosts

/-!
# What reports and picks leave alone

* `report_others`: a report touches the host of its key only, and moves no other host in
  the two lists.
* `commit_all`: a status report has one entry for each host of the map, with its flag.
* `hosts_kept`: both hold in every state that reports and picks lead to.
* `hosts_kept_fails`: neither holds without a word on the lists and on an empty map.
-/

namespace LbRpc

namespace LoadBalance

variable {E : Env} {lb lb' : LoadBalance} {a b : Addr}

/-- Every host of the map is live, once in the two lists together, and in the overload
list exactly when its flag is set. -/
def AllPlaced (lb : LoadBalance) : Prop := ∀ k a, lb.hostMap.lookup k = some a → lb.Placed a

/-- The two lists hold hosts of the map only. -/
def AllListed (lb : LoadBalance) : Prop :=
  ∀ a ∈ lb.idleList ++ lb.overloadList, ∃ k, lb.hostMap.lookup k = some a

/-- The calls that route and judge requests: `report` and `pick_one_host`. -/
def Op.serves : Op → Bool
  | .report .. => true
  | .pickOneHost => true
  | _ => false

/-! ## One call -/

theorem PickedBy.allPlaced {p : Picked} (hp : PickedBy E lb lb' p) (h : lb.AllPlaced) : lb'.AllPlaced := by
  intro k a hk
  rw [hp.frame.1] at hk
  exact hp.placed (h k a hk)

theorem AllPlaced.report (h : lb.AllPlaced) {now ts : ℤ} {ip port rc : Int32}
    {v : Option HostInfo.Verdict} (hr : lb.report E now ts ip port rc = .ok (lb', v)) : lb'.AllPlaced := by
  intro k b hb
  rw [report_hostMap hr] at hb
  exact (h k b hb).report hr

/-- What a report of the host behind `a` leaves alone: the fields of every other host, and
the order of the others in each list. -/
structure LeavesOthers (lb lb' : LoadBalance) (a : Addr) : Prop where
  fields : ∀ b, b ≠ a → lb'.heap.read b = lb.heap.read b
  idle : lb'.idleList.filter (· ≠ a) = lb.idleList.filter (· ≠ a)
  overload : lb'.overloadList.filter (· ≠ a) = lb.overloadList.filter (· ≠ a)

/-- A move takes a host out of one list and puts it at the end of the other; the rest of both
lists stays. -/
theorem requeue_others (a : Addr) (lb : LoadBalance) (v : HostInfo.Verdict) :
    (requeue a lb v).idleList.filter (· ≠ a) = lb.idleList.filter (· ≠ a) ∧
      (requeue a lb v).overloadList.filter (· ≠ a) = lb.overloadList.filter (· ≠ a) := by
  have hself : [a].filter (· ≠ a) = [] := by simp
  cases v <;> simp only [requeue, List.filter_append, List.filter_filter, hself, List.append_nil,
    Bool.and_self, and_self]

/-- **A report is about the host of its key.** -/
theorem report_others {now ts : ℤ} {ip port rc : Int32} {v : Option HostInfo.Verdict}
    (h : lb.report E now ts ip port rc = .ok (lb', v)) (hk : lb.hostMap.lookup (key ip port) = some a) :
    LeavesOthers lb lb' a := by
  rcases report_cases h with ⟨hnone, -, -⟩ | ⟨b, hi, hb, -, rfl, -⟩
  · rw [hk] at hnone
    cases hnone
  · rw [hk] at hb
    cases hb
    obtain ⟨hidle, hover⟩ := requeue_others a
      { lb with heap := lb.heap.modify a fun _ => (hi.report E now ts rc).1 } (hi.report E now ts rc).2
    refine ⟨fun b hb => ?_, hidle, hover⟩
    rw [requeue_heap]
    exact Heap.read_modify_ne hb

/-! ## `commit` -/

/-- The entry of a status report that a live host gets. -/
def ReportsHost (heap : Heap HostInfo) (a : Addr) (r : Lbrss.HostCallResult) : Prop :=
  ∃ hi, heap.read a = some hi ∧
    r = { ip := hi.ip.toInt32, port := hi.port, succ := hi.rsucc, err := hi.rerr, overload := hi.overload }

/-- A list of live hosts that all have the flag gives one entry each, in its order. -/
theorem mapM_callResult {heap : Heap HostInfo} {o : Bool} (l : List Addr)
    (h : ∀ a ∈ l, ∃ hi, heap.read a = some hi ∧ hi.overload = o) :
    ∃ rs, l.mapM (callResult heap o) = .ok rs ∧ List.Forall₂ (ReportsHost heap) l rs := by
  induction l with
  | nil => exact ⟨[], rfl, .nil⟩
  | cons a l ih =>
    obtain ⟨hi, hr, ho⟩ := h a List.mem_cons_self
    obtain ⟨rs, hrs, hall⟩ := ih fun b hb => h b (List.mem_cons_of_mem a hb)
    have hone : callResult heap o a = .ok
        { ip := hi.ip.toInt32, port := hi.port, succ := hi.rsucc, err := hi.rerr, overload := o } := by
      simp only [callResult, hr]
    refine ⟨_ :: rs, ?_, .cons ⟨hi, hr, rfl⟩ hall⟩
    rw [List.mapM_cons, hone, hrs, ho]
    rfl

/-- **What `commit` sends**: no request for an empty map, else one with these entries. -/
theorem commit_all (hp : lb.AllPlaced) (hl : lb.AllListed) (now : ℤ) :
    ∃ req, lb.commit E now = .ok req ∧
      List.Forall₂ (ReportsHost lb.heap) (lb.idleList ++ lb.overloadList)
        ((req.map Lbrss.ReportStatusRequest.results).getD []) := by
  unfold commit
  split
  · -- an empty map: the lists hold its hosts only, so they are empty too
    rename_i hempty
    have hnil : lb.idleList ++ lb.overloadList = [] := by
      refine List.eq_nil_iff_forall_not_mem.2 fun a ha => ?_
      obtain ⟨k, hk⟩ := hl a ha
      have hmem : k ∈ lb.hostMap.keys := AList.mem_keys.2 (AList.lookup_isSome.1 (by rw [hk]; rfl))
      rw [List.isEmpty_iff.1 hempty] at hmem
      cases hmem
    rw [hnil]
    exact ⟨none, rfl, .nil⟩
  · have hidle : ∀ a ∈ lb.idleList, ∃ hi, lb.heap.read a = some hi ∧ hi.overload = false := by
      intro a ha
      obtain ⟨k, hk⟩ := hl a (List.mem_append_left _ ha)
      obtain ⟨hi, hr, hc, hf⟩ := hp k a hk
      refine ⟨hi, hr, ?_⟩
      -- in both lists it would be listed twice
      by_contra ho
      have h1 := List.count_pos_iff.2 ha
      have h2 := List.count_pos_iff.2 (hf.2 (by simpa using ho))
      rw [List.count_append] at hc
      omega
    have hover : ∀ a ∈ lb.overloadList, ∃ hi, lb.heap.read a = some hi ∧ hi.overload = true := by
      intro a ha
      obtain ⟨k, hk⟩ := hl a (List.mem_append_right _ ha)
      obtain ⟨hi, hr, -, hf⟩ := hp k a hk
      exact ⟨hi, hr, hf.1 ha⟩
    obtain ⟨is, hi, hi2⟩ := mapM_callResult _ hidle
    obtain ⟨os, ho, ho2⟩ := mapM_callResult _ hover
    rw [hi, ho]
    exact ⟨_, rfl, List.rel_append hi2 ho2⟩

/-- Every host of the map is once in the lists, and the lists have no other. -/
theorem lists_exact (hp : lb.AllPlaced) (hl : lb.AllListed) :
    (lb.idleList ++ lb.overloadList).Nodup ∧
      ∀ a, a ∈ lb.idleList ++ lb.overloadList ↔ ∃ k, lb.hostMap.lookup k = some a := by
  refine ⟨List.nodup_iff_count_le_one.2 fun a => ?_, fun a => ⟨hl a, ?_⟩⟩
  · by_cases ha : a ∈ lb.idleList ++ lb.overloadList
    · obtain ⟨k, hk⟩ := hl a ha
      obtain ⟨hi, -, hc, -⟩ := hp k a hk
      omega
    · rw [List.count_eq_zero_of_not_mem ha]
      omega
  · rintro ⟨k, hk⟩
    obtain ⟨hi, -, hc, -⟩ := hp k a hk
    exact List.count_pos_iff.1 (by omega)

/-- `commit` sends exactly one entry for each host of the map, with the host's flag. -/
def OneEntryEach (E : Env) (lb : LoadBalance) (now : ℤ) : Prop :=
  ∃ req hosts, lb.commit E now = .ok req ∧ hosts.Nodup ∧
    (∀ a, a ∈ hosts ↔ ∃ k, lb.hostMap.lookup k = some a) ∧
    List.Forall₂ (ReportsHost lb.heap) hosts ((req.map Lbrss.ReportStatusRequest.results).getD [])

theorem oneEntryEach (hp : lb.AllPlaced) (hl : lb.AllListed) (now : ℤ) : OneEntryEach E lb now := by
  obtain ⟨req, hreq, hall⟩ := commit_all (E := E) hp hl now
  obtain ⟨hnodup, hmem⟩ := lists_exact hp hl
  exact ⟨req, _, hreq, hnodup, hmem, hall⟩

/-! ## Any sequence of calls -/

/-- What a report does in a state: nothing for an unknown key, else nothing to other hosts. -/
def ReportFramed (E : Env) (lb : LoadBalance) : Prop :=
  ∀ now ts ip port rc, ∃ u v, lb.report E now ts ip port rc = .ok (u, v) ∧
    (lb.hostMap.lookup (key ip port) = none → u = lb) ∧
    ∀ a, lb.hostMap.lookup (key ip port) = some a → LeavesOthers lb u a

theorem reportFramed (hp : lb.AllPlaced) : ReportFramed E lb := by
  intro now ts ip port rc
  obtain ⟨u, v, hrep⟩ := report_ok (E := E) hp now ts ip port rc
  refine ⟨u, v, hrep, fun hnone => ?_, fun a ha => report_others hrep ha⟩
  rcases report_cases hrep with ⟨-, hu, -⟩ | ⟨a, hi, ha, -⟩
  · exact hu
  · rw [hnone] at ha
    cases ha

/-- **One call** keeps the hosts of the map where they are. -/
theorem serves_step {op : Op} (hop : op.serves = true) (hp : lb.AllPlaced)
    (h : step E lb op = .ok lb') :
    lb'.hostMap = lb.hostMap ∧ lb'.AllPlaced ∧ (lb.AllListed → lb'.AllListed) := by
  cases op with
  | update now junk rsp => cases hop
  | report now ts ip port rc =>
    obtain ⟨v, hrep⟩ := step_report h
    exact ⟨report_hostMap hrep, hp.report hrep, fun hl => (HostsOK.report ⟨hp, hl⟩ hrep).listed⟩
  | getAllHosts => cases hop
  | pickOneHost =>
    obtain ⟨q, hq⟩ := step_pick h
    exact ⟨(picked hq).frame.1, (picked hq).allPlaced hp, fun hl => ((picked hq).hostsOK ⟨hp, hl⟩).listed⟩

/-- With hosts in the map such a call has a result. -/
theorem serves_ok {op : Op} (hop : op.serves = true) (hp : lb.AllPlaced) (hl : lb.AllListed)
    (he : lb.empty = false) : ∃ u, step E lb op = .ok u := by
  have hok : HostsOK lb := ⟨hp, hl⟩
  cases op with
  | update now junk rsp => cases hop
  | report now ts ip port rc =>
    obtain ⟨u, v, hr⟩ := report_ok (E := E) hp now ts ip port rc
    exact ⟨u, by simp only [step, hr]⟩
  | getAllHosts => cases hop
  | pickOneHost =>
    obtain ⟨r, hr⟩ := hok.pickOneHost (E := E) he
    exact ⟨r.1, by simp only [step, hr]⟩

theorem serves_run : ∀ (ops : List Op) (lb lb' : LoadBalance), (∀ op ∈ ops, op.serves = true) →
    lb.AllPlaced → Runs.run (step E) lb ops = .ok lb' →
    lb'.hostMap = lb.hostMap ∧ lb'.AllPlaced ∧ (lb.AllListed → lb'.AllListed) := by
  intro ops
  induction ops with
  | nil =>
    intro lb lb' _ hp h
    rw [Runs.run_nil] at h
    cases h
    exact ⟨rfl, hp, id⟩
  | cons op ops ih =>
    intro lb lb' hops hp h
    obtain ⟨t, hs, ht⟩ := Runs.run_cons_ok.1 h
    obtain ⟨hm, hpt, hlt⟩ := serves_step (hops op List.mem_cons_self) hp hs
    obtain ⟨hm', hp', hl'⟩ := ih t lb' (fun o ho => hops o (List.mem_cons_of_mem op ho)) hpt ht
    exact ⟨hm'.trans hm, hp', fun hl => hl' (hlt hl)⟩

theorem serves_run_ok : ∀ (ops : List Op) (lb : LoadBalance), (∀ op ∈ ops, op.serves = true) →
    lb.AllPlaced → lb.AllListed → lb.empty = false → ∃ lb', Runs.run (step E) lb ops = .ok lb' := by
  intro ops
  induction ops with
  | nil => exact fun lb _ _ _ _ => ⟨lb, rfl⟩
  | cons op ops ih =>
    intro lb hops hp hl he
    obtain ⟨t, hs⟩ := serves_ok (E := E) (hops op List.mem_cons_self) hp hl he
    obtain ⟨hm, hpt, hlt⟩ := serves_step (hops op List.mem_cons_self) hp hs
    have het : t.empty = false := by
      unfold empty at he ⊢
      rw [hm]
      exact he
    obtain ⟨u, hu⟩ := ih t (fun o ho => hops o (List.mem_cons_of_mem op ho)) hpt (hlt hl) het
    exact ⟨u, Runs.run_cons_ok.2 ⟨t, hs, hu⟩⟩

/-- **Reports and picks keep every host.** From a state whose hosts are placed, in every state
that reports and picks lead to the map is the same, its hosts are placed and a report leaves
the others alone. If the lists hold hosts of the map only, they go on to do so, `commit` sends one
entry for each, and with a host in the map every call has a result. -/
theorem hosts_kept (E : Env) (lb : LoadBalance) (hp : lb.AllPlaced) (ops : List Op)
    (hops : ∀ op ∈ ops, op.serves = true) :
    Runs.Throughout (step E)
        (fun _ t => t.hostMap = lb.hostMap ∧ t.AllPlaced ∧ ReportFramed E t) lb ops ∧
      (lb.AllListed →
        Runs.Throughout (step E) (fun _ t => t.AllListed ∧ ∀ now, OneEntryEach E t now) lb ops ∧
        (lb.empty = false → ∃ t, Runs.run (step E) lb ops = .ok t)) := by
  refine ⟨fun pre hpre t ht => ?_, fun hl => ⟨fun pre hpre t ht => ?_, fun he => ?_⟩⟩
  · obtain ⟨hm, hpt, -⟩ := serves_run pre lb t (fun op ho => hops op (hpre.subset ho)) hp ht
    exact ⟨hm, hpt, reportFramed hpt⟩
  · obtain ⟨-, hpt, hlt⟩ := serves_run pre lb t (fun op ho => hops op (hpre.subset ho)) hp ht
    exact ⟨hlt hl, fun now => oneEntryEach hpt (hlt hl) now⟩
  · exact serves_run_ok ops lb hops hp hl he

/-- Two hosts, one of them overloaded. -/
def oneOfTwo : LoadBalance where
  status := .new
  lastUpdateTime := 0
  modid := 1
  cmdid := 1
  accessCnt := 0
  hostMap := ((∅ : AList fun _ : UInt64 => Addr).insert (key 1 80) 0).insert (key 2 80) 1
  idleList := [0]
  overloadList := [1]
  heap := (Heap.empty.alloc (HostInfo.new 1 80 100 ⟨0, 0⟩)).alloc
    ((HostInfo.new 2 80 100 ⟨0, 0⟩).setOverload Env.shipped 0)

theorem oneOfTwo_lookup {k : UInt64} (h : oneOfTwo.hostMap.lookup k = some a) :
    (k = key 2 80 ∧ a = 1) ∨ (k = key 1 80 ∧ a = 0) := by
  by_cases h2 : k = key 2 80
  · rw [h2, show oneOfTwo.hostMap.lookup (key 2 80) = some 1 by decide +kernel] at h
    cases h
    exact Or.inl ⟨h2, rfl⟩
  by_cases h1 : k = key 1 80
  · rw [h1, show oneOfTwo.hostMap.lookup (key 1 80) = some 0 by decide +kernel] at h
    cases h
    exact Or.inr ⟨h1, rfl⟩
  · unfold oneOfTwo at h
    dsimp only at h
    rw [AList.lookup_insert_ne h2, AList.lookup_insert_ne h1] at h
    cases h

theorem oneOfTwo_placed : oneOfTwo.AllPlaced := by
  intro k a hk
  rcases oneOfTwo_lookup hk with ⟨-, rfl⟩ | ⟨-, rfl⟩
  · exact ⟨_, rfl, by decide, by decide⟩
  · exact ⟨_, rfl, by decide, by decide⟩

theorem oneOfTwo_listed : oneOfTwo.AllListed := by
  intro a ha
  have hcases : a = 0 ∨ a = 1 := by simpa [oneOfTwo] using ha
  rcases hcases with rfl | rfl
  · exact ⟨key 1 80, by decide +kernel⟩
  · exact ⟨key 2 80, by decide +kernel⟩

theorem hosts_kept_two :
    let ops : List Op := [.report 1 1 1 80 4, .pickOneHost, .report 2 2 2 80 0, .pickOneHost]
    Runs.Throughout (step Env.shipped)
        (fun _ t => t.hostMap = oneOfTwo.hostMap ∧ t.AllPlaced ∧ ReportFramed Env.shipped t) oneOfTwo ops ∧
      Runs.Throughout (step Env.shipped) (fun _ t => t.AllListed ∧ ∀ now, OneEntryEach Env.shipped t now)
        oneOfTwo ops ∧
      ∃ t, Runs.run (step Env.shipped) oneOfTwo ops = .ok t := by
  intro ops
  obtain ⟨hkept, hmore⟩ := hosts_kept Env.shipped oneOfTwo oneOfTwo_placed ops (by decide)
  obtain ⟨hentries, hresult⟩ := hmore oneOfTwo_listed
  exact ⟨hkept, hentries, hresult (by decide +kernel)⟩

/-- `oneOfTwo` with a pointer in `idle_list_` that no host of the map is behind. -/
def strayEntry : LoadBalance := { oneOfTwo with idleList := [0, 5] }

theorem strayEntry_placed : strayEntry.AllPlaced := by
  intro k a hk
  rcases oneOfTwo_lookup (a := a) hk with ⟨-, rfl⟩ | ⟨-, rfl⟩
  · exact ⟨_, rfl, by decide, by decide⟩
  · exact ⟨_, rfl, by decide, by decide⟩

/-- Hosts that are placed are not enough: without hosts the eleventh pick takes the front of an empty
list, and `commit` follows a pointer that the lists have besides. -/
theorem hosts_kept_fails :
    (¬∀ (E : Env) (lb : LoadBalance) (ops : List Op), lb.AllPlaced → (∀ op ∈ ops, op.serves = true) →
      ∃ t, Runs.run (step E) lb ops = .ok t) ∧
    ¬∀ (E : Env) (lb : LoadBalance) (now : ℤ), lb.AllPlaced → OneEntryEach E lb now := by
  constructor
  · intro hall
    have hplaced : (new 1 1 0).AllPlaced := by
      intro k a hk
      cases hk
    obtain ⟨t, ht⟩ := hall Env.shipped (new 1 1 0) (List.replicate 11 .pickOneHost) hplaced
      fun op hop => by rw [List.eq_of_mem_replicate hop]; rfl
    have hfail : Runs.run (step Env.shipped) (new 1 1 0) (List.replicate 11 .pickOneHost) =
        .error .emptyFront := rfl
    rw [hfail] at ht
    cases ht
  · intro hall
    obtain ⟨req, hosts, hreq, -⟩ := hall Env.shipped strayEntry 0 strayEntry_placed
    have hfail : strayEntry.commit Env.shipped 0 = .error .dangling := by decide +kernel
    rw [hfail] at hreq
    cases hreq

end LoadBalance

end LbRpc
