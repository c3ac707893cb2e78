import LbRpc.Proof.Updates

/-!
# What the status reports say

The map, the lists and the pointers of a load balancer hide a plain table: one slot for each
key, which only the updates and the reports of this key change.

* `Slot.after`: what a call does to the slot of a key.
* `Book`: every entry of the map leads to a host in the lists or to a deleted one. `update`
  leaves the entries of deleted hosts, so this is all that holds in every run.
* `slot_shown`: in every run that goes through, each slot is what the calls on its key alone
  make of it.
* `commit_tells`: a status report lists the live slots, each once, with the reports that were
  made since the counters of its host were last set.
-/

namespace LbRpc

namespace LoadBalance

variable {E : Env} {lb u : LoadBalance} {k k' : UInt64} {a b : Addr}

/-- What a table without pointers has for a key. -/
inductive Slot
  | absent
  /-- a host, and its reports since `set_idle` or `set_overload`: successes and failures -/
  | live (hi : HostInfo) (succ err : ℕ)
  | dropped

/-- A report, as it reaches the slot of its key. -/
def Slot.report (E : Env) (now ts : ℤ) (retcode : Int32) (hi : HostInfo) (succ err : ℕ) : Slot :=
  let r := hi.report E now ts retcode
  if r.2.setsIdle || r.2.setsOverload then .live r.1 0 0
  else if retcode = RetCode.succ.toInt32 then .live r.1 (succ + 1) err
  else .live r.1 succ (err + 1)

/-- The host that an update makes for a key it names, at the address `a`. -/
def Slot.made (E : Env) (k : UInt64) (a : Addr) (junk : Addr → Junk) (rsp : Lbrss.GetRouteResponse) : Slot :=
  match rsp.host.find? fun g => key g.ip g.port = k with
  | none => .absent
  | some g => .live (newHost E junk a g) 0 0

/-- What a call does to the slot of a key. The address `a` matters for what a new host finds in
its memory only; a dropped host does not come back. -/
def Slot.after (E : Env) (k : UInt64) (a : Addr) : Slot → Op → Slot
  | .absent, .update _ junk rsp => .made E k a junk rsp
  | .live hi succ err, .update _ _ rsp => if k ∈ remoteHosts rsp then .live hi succ err else .dropped
  | .live hi succ err, .report now ts ip port retcode =>
    if key ip port = k then .report E now ts retcode hi succ err else .live hi succ err
  | slot, _ => slot

/-- The slot of a key after some calls. -/
def slotOf (E : Env) (k : UInt64) (a : Addr) (ops : List Op) : Slot := ops.foldl (Slot.after E k a) .absent

theorem slotOf_snoc (ops : List Op) (op : Op) :
    slotOf E k a (ops ++ [op]) = (slotOf E k a ops).after E k a op := by
  unfold slotOf
  rw [List.foldl_append]
  rfl

theorem made_absent {junk : Addr → Junk} {rsp : Lbrss.GetRouteResponse} :
    Slot.made E k a junk rsp = .absent ↔ k ∉ remoteHosts rsp := by
  unfold Slot.made remoteHosts
  rcases hfind : rsp.host.find? (fun g => key g.ip g.port = k) with _ | g
  · rw [hfind]
    simpa using hfind
  · rw [hfind]
    have hg := List.find?_some hfind
    have hmem : k ∈ rsp.host.map fun h => key h.ip h.port :=
      List.mem_map.2 ⟨g, List.mem_of_find?_eq_some hfind, of_decide_eq_true hg⟩
    exact ⟨fun h => (by cases h), fun h => absurd hmem h⟩

theorem report_ne_absent (now ts : ℤ) (rc : Int32) (hi : HostInfo) (succ err : ℕ) :
    Slot.report E now ts rc hi succ err ≠ .absent := by
  unfold Slot.report
  dsimp only
  split
  · simp
  · split <;> simp

/-- A slot stays empty as long as no update names its key. -/
theorem after_absent {slot : Slot} {op : Op} :
    slot.after E k a op = .absent ↔
      slot = .absent ∧ ∀ now junk rsp, op = .update now junk rsp → k ∉ remoteHosts rsp := by
  cases slot with
  | absent =>
    cases op with
    | update now junk rsp =>
      show Slot.made E k a junk rsp = .absent ↔ _
      rw [made_absent]
      constructor
      · intro h
        refine ⟨rfl, ?_⟩
        rintro _ _ _ ⟨⟩
        exact h
      · exact fun h => h.2 now junk rsp rfl
    | report now ts ip port rc => exact ⟨fun _ => ⟨rfl, fun _ _ _ h => by cases h⟩, fun _ => rfl⟩
    | getAllHosts => exact ⟨fun _ => ⟨rfl, fun _ _ _ h => by cases h⟩, fun _ => rfl⟩
    | pickOneHost => exact ⟨fun _ => ⟨rfl, fun _ _ _ h => by cases h⟩, fun _ => rfl⟩
  | live hi succ err =>
    refine ⟨fun h => ?_, fun h => by cases h.1⟩
    cases op with
    | update now junk rsp =>
      have h' : (if k ∈ remoteHosts rsp then Slot.live hi succ err else .dropped) = .absent := h
      split at h' <;> cases h'
    | report now ts ip port rc =>
      have h' : (if key ip port = k then Slot.report E now ts rc hi succ err
        else .live hi succ err) = .absent := h
      split at h'
      · exact absurd h' (report_ne_absent _ _ _ _ _ _)
      · cases h'
    | getAllHosts => cases h
    | pickOneHost => cases h
  | dropped =>
    refine ⟨fun h => ?_, fun h => by cases h.1⟩
    cases op <;> cases h

/-- Whether a slot is empty does not depend on the address. -/
theorem slotOf_absent {ops : List Op} (h : slotOf E k a ops = .absent) (b : Addr) :
    slotOf E k b ops = .absent := by
  induction ops using List.reverseRecOn with
  | nil => rfl
  | append_singleton ops op ih =>
    rw [slotOf_snoc] at h ⊢
    obtain ⟨hslot, hop⟩ := after_absent.1 h
    exact after_absent.2 ⟨ih hslot, hop⟩

/-! ## The book of a load balancer -/

/-- Every entry of the map leads to a host that is placed or to a deleted one, and the lists
hold placed hosts of the map only. -/
structure Book (lb : LoadBalance) : Prop where
  entry : ∀ k a, lb.hostMap.lookup k = some a → lb.heap.Gone a ∨ lb.Placed a
  listed : ∀ a ∈ lb.idleList ++ lb.overloadList, (∃ k, lb.hostMap.lookup k = some a) ∧ lb.Placed a
  once : ∀ k k' a, lb.hostMap.lookup k = some a → lb.hostMap.lookup k' = some a → k = k'

theorem book_new (modid cmdid accessCnt : Int32) : Book (new modid cmdid accessCnt) :=
  ⟨fun k a h => by simp [new] at h, fun a h => by simp [new] at h, fun k k' a h => by simp [new] at h⟩

theorem Placed.lives (h : lb.Placed a) : a < lb.heap.next := by
  obtain ⟨hi, hr, -⟩ := h
  exact Heap.lt_next hr

theorem Book.lt_next (h : Book lb) (hk : lb.hostMap.lookup k = some a) : a < lb.heap.next := by
  rcases h.entry k a hk with hg | hp
  · exact hg.1
  · exact hp.lives

theorem Book.placed (h : Book lb) (hk : lb.hostMap.lookup k = some a) {hi : HostInfo}
    (hr : lb.heap.read a = some hi) : lb.Placed a := by
  rcases h.entry k a hk with hg | hp
  · rw [hg.2] at hr
    cases hr
  · exact hp

/-- A placed host stays placed when another one joins the idle list. -/
theorem Placed.insert (h : lb.Placed a) {m : AList fun _ : UInt64 => Addr} (hi : HostInfo) :
    Placed { lb with
      hostMap := m, idleList := lb.idleList ++ [lb.heap.next], heap := lb.heap.alloc hi } a := by
  have hne : lb.heap.next ≠ a := h.lives.ne'
  obtain ⟨w, hr, hc, hf⟩ := h
  refine ⟨w, Heap.read_alloc_of_read hr, ?_, hf⟩
  rw [List.count_append] at hc
  simp only [List.count_append, List.count_singleton, beq_iff_eq, if_neg hne]
  omega

theorem Book.insertHost (h : Book lb) (junk : Addr → Junk) (g : Lbrss.HostInfo) :
    Book (lb.insertHost E junk g) := by
  by_cases hk : key g.ip g.port ∈ lb.hostMap
  · rw [insertHost_known hk]
    exact h
  rw [insertHost_new hk]
  have hfresh : lb.heap.next ∉ lb.idleList ++ lb.overloadList := fun hm => (h.listed _ hm).2.lives.ne rfl
  -- the new host is placed, and at an address that no entry has
  have hnew : Placed { lb with
      hostMap := lb.hostMap.insert (key g.ip g.port) lb.heap.next
      idleList := lb.idleList ++ [lb.heap.next]
      heap := lb.heap.alloc (newHost E junk lb.heap.next g) } lb.heap.next := by
    have hc0 := List.count_eq_zero_of_not_mem hfresh
    rw [List.count_append] at hc0
    refine ⟨_, Heap.read_alloc_next, ?_, ?_⟩
    · simp only [List.count_append, List.count_singleton_self]
      omega
    · constructor
      · exact fun hm => absurd (List.mem_append_right _ hm) hfresh
      · exact fun hf => by cases hf
  have hcases : ∀ k' a, (lb.hostMap.insert (key g.ip g.port) lb.heap.next).lookup k' = some a →
      (k' = key g.ip g.port ∧ a = lb.heap.next) ∨ (lb.hostMap.lookup k' = some a ∧ a < lb.heap.next) := by
    intro k' a hl
    by_cases hkg : k' = key g.ip g.port
    · subst hkg
      rw [AList.lookup_insert] at hl
      exact Or.inl ⟨rfl, (Option.some.inj hl).symm⟩
    · rw [AList.lookup_insert_ne hkg] at hl
      exact Or.inr ⟨hl, h.lt_next hl⟩
  refine ⟨fun k' a hl => ?_, fun a ha => ?_, fun k₁ k₂ a h₁ h₂ => ?_⟩
  · rcases hcases k' a hl with ⟨-, rfl⟩ | ⟨hl', -⟩
    · exact Or.inr hnew
    · rcases h.entry k' a hl' with hg | hp
      · exact Or.inl hg.alloc
      · exact Or.inr (hp.insert _)
  · by_cases han : a = lb.heap.next
    · subst han
      exact ⟨⟨_, AList.lookup_insert _⟩, hnew⟩
    · have hold : a ∈ lb.idleList ++ lb.overloadList := by
        simp only [List.mem_append, List.mem_singleton] at ha ⊢
        tauto
      obtain ⟨⟨k', hl⟩, hp⟩ := h.listed a hold
      refine ⟨⟨k', ?_⟩, hp.insert _⟩
      have hkg : k' ≠ key g.ip g.port := by
        rintro rfl
        exact hk (AList.lookup_isSome.1 (by rw [hl]; rfl))
      exact (AList.lookup_insert_ne hkg).trans hl
  · rcases hcases k₁ a h₁ with ⟨e₁, rfl⟩ | ⟨l₁, lt₁⟩
    · rcases hcases k₂ _ h₂ with ⟨e₂, -⟩ | ⟨-, lt₂⟩
      · rw [e₁, e₂]
      · exact absurd lt₂ (lt_irrefl _)
    · rcases hcases k₂ a h₂ with ⟨-, e₂⟩ | ⟨l₂, -⟩
      · exact absurd e₂ lt₁.ne
      · exact h.once k₁ k₂ a l₁ l₂

theorem Book.insertHosts (junk : Addr → Junk) (gs : List Lbrss.HostInfo) :
    ∀ lb : LoadBalance, Book lb → Book (gs.foldl (LoadBalance.insertHost E junk) lb) := by
  induction gs with
  | nil => exact fun _ h => h
  | cons g gs ih => exact fun lb h => ih _ (h.insertHost junk g)

/-- The first loop of an update makes no host at a used address. -/
theorem insertHosts_gone (junk : Addr → Junk) (gs : List Lbrss.HostInfo) :
    ∀ lb : LoadBalance, lb.heap.Gone a → (gs.foldl (LoadBalance.insertHost E junk) lb).heap.Gone a := by
  induction gs with
  | nil => exact fun _ hg => hg
  | cons g gs ih =>
    intro lb hg
    refine ih _ ?_
    by_cases hk : key g.ip g.port ∈ lb.hostMap
    · rw [insertHost_known hk]
      exact hg
    · rw [insertHost_new hk]
      exact hg.alloc

/-- A deletion takes the host of its key off the heap and out of the lists. -/
theorem Book.deleteHost (h : Book lb) (hd : lb.deleteHost k = .ok u) :
    ∃ a, lb.hostMap.lookup k = some a ∧ lb.Placed a ∧ u = { lb with
      idleList := lb.idleList.filter (· ≠ a)
      overloadList := lb.overloadList.filter (· ≠ a)
      heap := lb.heap.free a } := by
  obtain ⟨a, hi, hk, hr, -⟩ := deleteHost_cases hd
  have hp := h.placed hk hr
  rw [hp.deleteHost hk] at hd
  exact ⟨a, hk, hp, (Except.ok.inj hd).symm⟩

theorem Book.deleteHost_book (h : Book lb) (hd : lb.deleteHost k = .ok u) : Book u := by
  obtain ⟨a, hk, hpa, rfl⟩ := h.deleteHost hd
  have hkeep : ∀ b, b ≠ a → lb.Placed b → Placed { lb with
      idleList := lb.idleList.filter (· ≠ a)
      overloadList := lb.overloadList.filter (· ≠ a)
      heap := lb.heap.free a } b := by
    rintro b hba ⟨hi, hr, hc, hf⟩
    refine ⟨hi, (Heap.read_free_ne hba).trans hr, ?_, ?_⟩
    · rw [List.count_append] at hc ⊢
      dsimp only
      rw [count_filter_ne, count_filter_ne, if_neg hba, if_neg hba]
      exact hc
    · rw [← hf]
      show b ∈ lb.overloadList.filter (· ≠ a) ↔ _
      simp [hba]
  refine ⟨fun k' b hl => ?_, fun b hb => ?_, h.once⟩
  · by_cases hba : b = a
    · subst hba
      exact Or.inl ⟨hpa.lives, Heap.read_free_self⟩
    · rcases h.entry k' b hl with hg | hp
      · exact Or.inl hg.free
      · exact Or.inr (hkeep b hba hp)
  · have hb' : b ≠ a ∧ b ∈ lb.idleList ++ lb.overloadList := by
      simp only [List.mem_append, List.mem_filter, decide_eq_true_eq] at hb ⊢
      tauto
    obtain ⟨hlk, hp⟩ := h.listed b hb'.2
    exact ⟨hlk, hkeep b hb'.1 hp⟩

/-- **The last loop of an update**: the hosts of its keys are gone, and the others as they were. -/
theorem Book.deleteHosts : ∀ (ks : List UInt64) (lb : LoadBalance), Book lb →
    Runs.run LoadBalance.deleteHost lb ks = .ok u →
    Book u ∧ u.hostMap = lb.hostMap ∧ (∀ a, lb.heap.Gone a → u.heap.Gone a) ∧
      (∀ k ∈ ks, ∀ a, lb.hostMap.lookup k = some a → u.heap.Gone a) ∧
      ∀ k a, k ∉ ks → lb.hostMap.lookup k = some a → u.heap.read a = lb.heap.read a := by
  intro ks
  induction ks with
  | nil =>
    intro lb h hrun
    cases hrun
    exact ⟨h, rfl, fun _ => id, fun _ hk _ _ => (by cases hk), fun _ _ _ _ => rfl⟩
  | cons k ks ih =>
    intro lb h hrun
    obtain ⟨v, hv, hrest⟩ := Runs.run_cons_ok.1 hrun
    obtain ⟨a, hk, hpa, heq⟩ := h.deleteHost hv
    obtain ⟨hbook, hmap, hgone, hdel, hread⟩ := ih v (h.deleteHost_book hv) hrest
    have hvm : v.hostMap = lb.hostMap := by rw [heq]
    have hvh : v.heap = lb.heap.free a := by rw [heq]
    rw [hvm] at hmap hdel hread
    have hstay : ∀ b, lb.heap.Gone b → u.heap.Gone b := fun b hb => hgone b (by rw [hvh]; exact hb.free)
    refine ⟨hbook, hmap, hstay, fun k' hk' b hb => ?_, fun k' b hk' hb => ?_⟩
    · rcases List.mem_cons.1 hk' with rfl | hk'
      · rw [hk] at hb
        cases hb
        exact hgone a (by rw [hvh]; exact ⟨hpa.lives, Heap.read_free_self⟩)
      · exact hdel k' hk' b hb
    · -- another key leads to another host
      have hne : k' ≠ k := fun hkk => hk' (hkk ▸ List.mem_cons_self)
      have hba : b ≠ a := fun hba => hne (h.once k' k a (hba ▸ hb) hk)
      rw [hread k' b (fun hm => hk' (List.mem_cons_of_mem k hm)) hb, hvh]
      exact Heap.read_free_ne hba

theorem Book.step {op : Op} (h : Book lb) (hs : step E lb op = .ok u) : Book u := by
  cases op with
  | update now junk rsp =>
    obtain ⟨-, t, ht, rfl⟩ := update_cases hs
    obtain ⟨hbook, -⟩ := Book.deleteHosts _ _ (Book.insertHosts (E := E) junk rsp.host lb h) ht
    exact ⟨hbook.entry, hbook.listed, hbook.once⟩
  | report now ts ip port rc =>
    obtain ⟨v, hrep⟩ := step_report hs
    have hmap := report_hostMap hrep
    have hgone : ∀ a, lb.heap.Gone a → u.heap.Gone a := by
      intro a hg
      rcases report_cases hrep with ⟨-, rfl, -⟩ | ⟨b, w, -, -, rfl, -⟩
      · exact hg
      · rw [requeue_heap]
        exact hg.modify
    refine ⟨fun k a hk => ?_, fun a ha => ?_, ?_⟩
    · rw [hmap] at hk
      rcases h.entry k a hk with hg | hp
      · exact Or.inl (hgone a hg)
      · exact Or.inr (hp.report hrep)
    · rw [hmap]
      rcases report_cases hrep with ⟨-, rfl, -⟩ | ⟨b, hi, hk, hr, rfl, -⟩
      · exact h.listed a ha
      · rcases mem_requeue ha with rfl | ha
        · exact ⟨⟨_, hk⟩, (h.placed hk hr).report hrep⟩
        · exact ⟨(h.listed a ha).1, (h.listed a ha).2.report hrep⟩
    · rw [hmap]
      exact h.once
  | getAllHosts =>
    cases hs
    exact h
  | pickOneHost =>
    obtain ⟨p, hp⟩ := step_pick hs
    have hpick := picked hp
    obtain ⟨hm, hh, -, hi, ho⟩ := hpick.frame
    refine ⟨fun k a hk => ?_, fun a ha => ?_, ?_⟩
    · rw [hm] at hk
      rcases h.entry k a hk with hg | hpl
      · exact Or.inl (by rw [hh]; exact hg)
      · exact Or.inr (hpick.placed hpl)
    · rw [hm]
      obtain ⟨hlk, hpl⟩ := h.listed a ((hi.append ho).mem_iff.1 ha)
      exact ⟨hlk, hpick.placed hpl⟩
    · rw [hm]
      exact h.once

/-! ## The slots -/

/-- **What the load balancer has for a key**, in the map, on the heap and in the counters. -/
def Shows (lb : LoadBalance) (k : UInt64) : Slot → Prop
  | .absent => lb.hostMap.lookup k = none
  | .live hi succ err => ∃ a, lb.hostMap.lookup k = some a ∧ lb.heap.read a = some hi ∧
      key (endpoint hi).ip (endpoint hi).port = k ∧ hi.rsucc = UInt32.ofNat succ ∧ hi.rerr = UInt32.ofNat err
  | .dropped => ∃ a, lb.hostMap.lookup k = some a ∧ lb.heap.Gone a

theorem report_endpoint (now ts : ℤ) (rc : Int32) (hi : HostInfo) :
    endpoint (hi.report E now ts rc).1 = endpoint hi := by
  have hcount : endpoint (hi.count rc) = endpoint hi := by
    unfold HostInfo.count
    split <;> rfl
  have hrep := hi.reported E now ts rc
  generalize (hi.report E now ts rc).1 = hi' at hrep ⊢
  generalize (hi.report E now ts rc).2 = v at hrep
  cases hrep <;> exact hcount

/-- The counters of a host count the reports since they were last set. -/
theorem report_counts {hi : HostInfo} {succ err : ℕ} (hsucc : hi.rsucc = UInt32.ofNat succ)
    (herr : hi.rerr = UInt32.ofNat err) (now ts : ℤ) (rc : Int32) :
    ∃ succ' err', Slot.report E now ts rc hi succ err = .live (hi.report E now ts rc).1 succ' err' ∧
      (hi.report E now ts rc).1.rsucc = UInt32.ofNat succ' ∧
      (hi.report E now ts rc).1.rerr = UInt32.ofNat err' := by
  have hrep := hi.reported E now ts rc
  unfold Slot.report
  dsimp only
  generalize (hi.report E now ts rc).1 = hi' at hrep ⊢
  generalize (hi.report E now ts rc).2 = v at hrep ⊢
  have hcount : ∃ succ' err', (if rc = RetCode.succ.toInt32 then Slot.live (hi.count rc) (succ + 1) err
      else .live (hi.count rc) succ (err + 1)) = .live (hi.count rc) succ' err' ∧
      (hi.count rc).rsucc = UInt32.ofNat succ' ∧ (hi.count rc).rerr = UInt32.ofNat err' := by
    unfold HostInfo.count
    by_cases hrc : rc = RetCode.succ.toInt32
    · rw [if_pos hrc, if_pos hrc]
      refine ⟨_, _, rfl, ?_, herr⟩
      show hi.rsucc + 1 = UInt32.ofNat (succ + 1)
      rw [hsucc, UInt32.ofNat_add]
      rfl
    · rw [if_neg hrc, if_neg hrc]
      refine ⟨_, _, rfl, hsucc, ?_⟩
      show hi.rerr + 1 = UInt32.ofNat (err + 1)
      rw [herr, UInt32.ofNat_add]
      rfl
  cases hrep with
  | toOverload _ _ _ => exact ⟨0, 0, rfl, rfl, rfl⟩
  | toIdle _ _ _ => exact ⟨0, 0, rfl, rfl, rfl⟩
  | windowOverload _ _ _ _ => exact ⟨0, 0, rfl, rfl, rfl⟩
  | windowReset _ _ _ _ => exact ⟨0, 0, rfl, rfl, rfl⟩
  | timeoutIdle _ _ _ => exact ⟨0, 0, rfl, rfl, rfl⟩
  | stayIdle _ _ _ => exact hcount
  | stayOverload _ _ _ => exact hcount

/-- A report leaves the slots of other keys. -/
theorem shows_report (h : Book lb) {slot : Slot} (hsh : lb.Shows k slot) {now ts : ℤ} {ip port rc : Int32}
    {v : Option HostInfo.Verdict} (hrep : lb.report E now ts ip port rc = .ok (u, v)) :
    u.Shows k (slot.after E k a (.report now ts ip port rc)) := by
  have hmap := report_hostMap hrep
  cases slot with
  | absent =>
    show u.hostMap.lookup k = none
    rw [hmap]
    exact hsh
  | dropped =>
    obtain ⟨b, hk, hg⟩ := hsh
    refine ⟨b, by rw [hmap]; exact hk, ?_⟩
    rcases report_cases hrep with ⟨-, rfl, -⟩ | ⟨c, w, -, -, rfl, -⟩
    · exact hg
    · rw [requeue_heap]
      exact hg.modify
  | live hi succ err =>
    obtain ⟨b, hk, hr, hkey, hsucc, herr⟩ := hsh
    show u.Shows k (if key ip port = k then Slot.report E now ts rc hi succ err else .live hi succ err)
    by_cases hkk : key ip port = k
    · rw [if_pos hkk]
      subst hkk
      rcases report_cases hrep with ⟨hnone, -, -⟩ | ⟨c, w, hc, hw, heq, -⟩
      · rw [hk] at hnone
        cases hnone
      · rw [hk] at hc
        cases hc
        rw [hr] at hw
        cases hw
        obtain ⟨succ', err', hslot, hs', he'⟩ := report_counts hsucc herr now ts rc
        rw [hslot]
        refine ⟨b, by rw [hmap]; exact hk, ?_, ?_, hs', he'⟩
        · rw [heq, requeue_heap, Heap.read_modify_self, hr]
          rfl
        · rw [report_endpoint]
          exact hkey
    · rw [if_neg hkk]
      refine ⟨b, by rw [hmap]; exact hk, ?_, hkey, hsucc, herr⟩
      rcases report_cases hrep with ⟨-, rfl, -⟩ | ⟨c, w, hc, -, rfl, -⟩
      · exact hr
      · -- the host of another key is another one
        have hbc : b ≠ c := fun hbc => hkk (h.once _ _ c hc (hbc ▸ hk))
        rw [requeue_heap]
        exact (Heap.read_modify_ne hbc).trans hr

/-- The keys that the last loop of an update deletes. -/
theorem mem_needDelete {rsp : Lbrss.GetRouteResponse} :
    k ∈ lb.needDelete rsp ↔ k ∈ lb.hostMap ∧ k ∉ remoteHosts rsp := by
  unfold needDelete
  rw [(List.perm_insertionSort _ _).mem_iff, List.mem_filter, AList.mem_keys, decide_eq_true_eq]

theorem lookup_none_iff {m : AList fun _ : UInt64 => Addr} : m.lookup k = none ↔ k ∉ m :=
  AList.lookup_eq_none

/-- **An update leaves the named hosts, makes the new ones and drops the rest.** -/
theorem shows_update (h : Book lb) {slot : Slot} (hsh : lb.Shows k slot) {now : ℤ} {junk : Addr → Junk}
    {rsp : Lbrss.GetRouteResponse} (hu : lb.update E now junk rsp = .ok u)
    (ha : slot = .absent → ∀ b, u.hostMap.lookup k = some b → b = a) :
    u.Shows k (slot.after E k a (.update now junk rsp)) := by
  obtain ⟨-, v, hrun, rfl⟩ := update_cases hu
  obtain ⟨fresh, hins⟩ := insertHosts_fresh (E := E) junk rsp.host lb
  have hbook := Book.insertHosts (E := E) junk rsp.host lb h
  have hmem : k ∈ (rsp.host.foldl (LoadBalance.insertHost E junk) lb).hostMap ↔ _ :=
    mem_insertHosts rsp.host lb
  have hdead : ∀ b, lb.heap.Gone b → (rsp.host.foldl (LoadBalance.insertHost E junk) lb).heap.Gone b :=
    fun b => insertHosts_gone junk rsp.host lb
  generalize rsp.host.foldl (insertHost E junk) lb = t at hrun hins hbook hmem hdead
  obtain ⟨-, hmap, hgone, hdel, hread⟩ := Book.deleteHosts _ _ hbook hrun
  show v.Shows k _
  have ha' : slot = .absent → ∀ b, v.hostMap.lookup k = some b → b = a := ha
  rw [hmap] at ha'
  have hnamed : (∃ g ∈ rsp.host, key g.ip g.port = k) ↔ k ∈ remoteHosts rsp := by
    unfold remoteHosts
    rw [List.mem_map]
  rw [hnamed] at hmem
  cases slot with
  | absent =>
    have hk : k ∉ lb.hostMap := lookup_none_iff.1 hsh
    show v.Shows k (Slot.made E k a junk rsp)
    by_cases hin : k ∈ remoteHosts rsp
    · -- a new host of the response
      unfold Slot.made
      rcases hfind : rsp.host.find? (fun g => key g.ip g.port = k) with _ | g
      · obtain ⟨g, hg, hkey⟩ := hnamed.2 hin
        have := List.find?_eq_none.1 hfind g hg
        simp [hkey] at this
      · have hkey : key g.ip g.port = k := by simpa using List.find?_some hfind
        have hg := List.mem_of_find?_eq_some hfind
        obtain ⟨b, -, hlook, hnew⟩ := (exists_of_forall₂ hins.fresh).1 g
          (mem_newPairs.2 ⟨hg, by rw [hkey]; exact hk⟩)
        rw [hkey] at hlook
        have hba : b = a := ha' rfl b hlook
        subst hba
        have hkeep : k ∉ t.needDelete rsp := fun hd => (mem_needDelete.1 hd).2 hin
        rw [hfind]
        refine ⟨b, by rw [hmap]; exact hlook, (hread k b hkeep hlook).trans hnew, ?_, rfl, rfl⟩
        rw [endpoint_newHost]
        exact hkey
    · rw [made_absent.2 hin]
      show v.hostMap.lookup k = none
      rw [hmap, lookup_none_iff, hmem]
      exact fun hor => hor.elim hin hk
  | live hi succ err =>
    obtain ⟨b, hk, hr, hkey, hsucc, herr⟩ := hsh
    have hkm : k ∈ lb.hostMap := AList.lookup_isSome.1 (by rw [hk]; rfl)
    have hlook : t.hostMap.lookup k = some b := (hins.lookup k hkm).trans hk
    show v.Shows k (if k ∈ remoteHosts rsp then .live hi succ err else .dropped)
    by_cases hin : k ∈ remoteHosts rsp
    · rw [if_pos hin]
      have hkeep : k ∉ t.needDelete rsp := fun hd => (mem_needDelete.1 hd).2 hin
      exact ⟨b, by rw [hmap]; exact hlook, (hread k b hkeep hlook).trans (hins.read b hi hr), hkey, hsucc, herr⟩
    · rw [if_neg hin]
      have hd : k ∈ t.needDelete rsp := mem_needDelete.2 ⟨hmem.2 (Or.inr hkm), hin⟩
      exact ⟨b, by rw [hmap]; exact hlook, hdel k hd b hlook⟩
  | dropped =>
    obtain ⟨b, hk, hg⟩ := hsh
    have hkm : k ∈ lb.hostMap := AList.lookup_isSome.1 (by rw [hk]; rfl)
    have hlook : t.hostMap.lookup k = some b := (hins.lookup k hkm).trans hk
    exact ⟨b, by rw [hmap]; exact hlook, hgone b (hdead b hg)⟩

theorem shows_step (h : Book lb) {slot : Slot} (hsh : lb.Shows k slot) {op : Op} (hs : step E lb op = .ok u)
    (ha : slot = .absent → ∀ b, u.hostMap.lookup k = some b → b = a) : u.Shows k (slot.after E k a op) := by
  cases op with
  | update now junk rsp => exact shows_update h hsh hs ha
  | report now ts ip port rc =>
    obtain ⟨v, hrep⟩ := step_report hs
    exact shows_report h hsh hrep
  | getAllHosts =>
    cases hs
    have hsame : slot.after E k a .getAllHosts = slot := by cases slot <;> rfl
    rw [hsame]
    exact hsh
  | pickOneHost =>
    obtain ⟨p, hp⟩ := step_pick hs
    obtain ⟨hm, hh, -⟩ := (picked hp).frame
    have hsame : slot.after E k a .pickOneHost = slot := by cases slot <;> rfl
    rw [hsame]
    cases slot with
    | absent =>
      show u.hostMap.lookup k = none
      rw [hm]
      exact hsh
    | live hi succ err =>
      obtain ⟨b, hk, hr, hrest⟩ := hsh
      exact ⟨b, by rw [hm]; exact hk, by rw [hh]; exact hr, hrest⟩
    | dropped =>
      obtain ⟨b, hk, hg⟩ := hsh
      exact ⟨b, by rw [hm]; exact hk, by rw [hh]; exact hg⟩

/-- **Hosts do not interfere.** In every run that goes through, a load balancer has for each key
what the calls that concern this key make of an empty slot. -/
theorem slot_shown {modid cmdid accessCnt : Int32} {ops : List Op}
    (hrun : Runs.run (step E) (new modid cmdid accessCnt) ops = .ok lb) :
    Book lb ∧ ∀ k, ∃ a, lb.Shows k (slotOf E k a ops) := by
  refine Runs.run_hist (I := fun ops lb => Book lb ∧ ∀ k, ∃ a, lb.Shows k (slotOf E k a ops)) ?_ ?_ hrun
  · exact ⟨book_new _ _ _, fun k => ⟨0, rfl⟩⟩
  · rintro pre s op t - ⟨hbook, hsh⟩ hs
    refine ⟨hbook.step hs, fun k => ?_⟩
    obtain ⟨a, ha⟩ := hsh k
    by_cases habs : slotOf E k a pre = .absent
    · -- the address that matters is the one of the host that is made now
      have hslot : ∀ b, slotOf E k b pre = .absent := slotOf_absent habs
      rw [habs] at ha
      refine ⟨(t.hostMap.lookup k).getD 0, ?_⟩
      rw [slotOf_snoc, hslot]
      refine shows_step hbook ha hs fun _ b hb => ?_
      rw [hb]
      rfl
    · refine ⟨a, ?_⟩
      rw [slotOf_snoc]
      exact shows_step hbook ha hs fun h => absurd h habs

/-! ## What `commit` sends -/

/-- The entries of a status report. -/
def entries (r : Option Lbrss.ReportStatusRequest) : List Lbrss.HostCallResult :=
  (r.map Lbrss.ReportStatusRequest.results).getD []

/-- The entry of a host with so many successes and failures since its counters were set. -/
def entryOf (hi : HostInfo) (succ err : ℕ) : Lbrss.HostCallResult where
  ip := hi.ip.toInt32
  port := hi.port
  succ := UInt32.ofNat succ
  err := UInt32.ofNat err
  overload := hi.overload

/-- The pair that a load balancer asks for. -/
def pair (lb : LoadBalance) : Lbrss.GetRouteRequest := ⟨lb.modid, lb.cmdid⟩

theorem PickedBy.pair {p : Picked} (h : PickedBy E lb u p) : u.pair = lb.pair := by
  cases h <;> rfl

theorem requeue_pair (a : Addr) (v : HostInfo.Verdict) : (requeue a lb v).pair = lb.pair := by
  cases v <;> rfl

theorem report_pair {now ts : ℤ} {ip port rc : Int32} {v : Option HostInfo.Verdict}
    (h : lb.report E now ts ip port rc = .ok (u, v)) : u.pair = lb.pair ∧ u.status = lb.status := by
  rcases report_cases h with ⟨-, rfl, -⟩ | ⟨a, hi, -, -, rfl, -⟩
  · exact ⟨rfl, rfl⟩
  · exact ⟨requeue_pair _ _, requeue_status _ _⟩

theorem insertHosts_pair (junk : Addr → Junk) (gs : List Lbrss.HostInfo) :
    ∀ lb : LoadBalance, (gs.foldl (insertHost E junk) lb).pair = lb.pair := by
  induction gs with
  | nil => exact fun _ => rfl
  | cons g gs ih =>
    intro lb
    have hone : (insertHost E junk lb g).pair = lb.pair := by
      unfold insertHost
      split <;> rfl
    rw [List.foldl_cons, ih, hone]

theorem update_pair {now : ℤ} {junk : Addr → Junk} {rsp : Lbrss.GetRouteResponse}
    (h : lb.update E now junk rsp = .ok u) : u.pair = lb.pair ∧ u.status = .new := by
  obtain ⟨-, t, ht, rfl⟩ := update_cases h
  refine ⟨?_, rfl⟩
  have hdel : t.pair = (rsp.host.foldl (insertHost E junk) lb).pair := by
    refine Runs.run_inv (I := fun u => u.pair = (rsp.host.foldl (insertHost E junk) lb).pair) ?_ rfl ht
    intro u k v hu hv
    obtain ⟨a, hi, -, -, rfl⟩ := deleteHost_cases hv
    split <;> exact hu
  exact hdel.trans (insertHosts_pair junk _ lb)

/-- The calls of a load balancer keep its pair. -/
theorem step_pair {op : Op} (hs : step E lb op = .ok u) : u.pair = lb.pair := by
  cases op with
  | update now junk rsp => exact (update_pair hs).1
  | report now ts ip port rc =>
    obtain ⟨v, hrep⟩ := step_report hs
    exact (report_pair hrep).1
  | getAllHosts =>
    cases hs
    rfl
  | pickOneHost =>
    obtain ⟨p, hp⟩ := step_pick hs
    exact (picked hp).pair

/-- The lists of a load balancer by the flags of their hosts. -/
theorem Book.flags (h : Book lb) :
    (∀ a ∈ lb.idleList, ∃ hi, lb.heap.read a = some hi ∧ hi.overload = false) ∧
      ∀ a ∈ lb.overloadList, ∃ hi, lb.heap.read a = some hi ∧ hi.overload = true := by
  constructor
  · intro a ha
    obtain ⟨hi, hr, hc, hf⟩ := (h.listed a (List.mem_append_left _ ha)).2
    refine ⟨hi, hr, ?_⟩
    -- in both lists it would be listed twice
    by_contra ho
    have h1 := List.count_pos_iff.2 ha
    have h2 := List.count_pos_iff.2 (hf.2 (by simpa using ho))
    rw [List.count_append] at hc
    omega
  · intro a ha
    obtain ⟨hi, hr, -, hf⟩ := (h.listed a (List.mem_append_right _ ha)).2
    exact ⟨hi, hr, hf.1 ha⟩

/-- **`commit` sends an entry for each host of the lists.** -/
theorem Book.commit (h : Book lb) (now : ℤ) :
    ∃ r, lb.commit E now = .ok r ∧
      (∀ req, r = some req → req.modid = lb.modid ∧ req.cmdid = lb.cmdid ∧
        req.caller = E.config.localIp.toInt32) ∧
      List.Forall₂ (ReportsHost lb.heap) (lb.idleList ++ lb.overloadList) (entries r) := by
  unfold LoadBalance.commit
  by_cases hempty : lb.empty = true
  · rw [if_pos hempty]
    have hnil : lb.idleList ++ lb.overloadList = [] := by
      refine List.eq_nil_iff_forall_not_mem.2 fun a ha => ?_
      obtain ⟨⟨k, hk⟩, -⟩ := h.listed a ha
      have hmem : k ∈ lb.hostMap.keys := AList.mem_keys.2 (AList.lookup_isSome.1 (by rw [hk]; rfl))
      rw [List.isEmpty_iff.1 hempty] at hmem
      cases hmem
    rw [hnil]
    exact ⟨none, rfl, fun _ hreq => (by cases hreq), .nil⟩
  · rw [if_neg hempty]
    obtain ⟨is, hi, hi2⟩ := mapM_callResult _ h.flags.1
    obtain ⟨os, ho, ho2⟩ := mapM_callResult _ h.flags.2
    rw [hi, ho]
    refine ⟨_, rfl, ?_, List.rel_append hi2 ho2⟩
    rintro req ⟨⟩
    exact ⟨rfl, rfl, rfl⟩

/-- The key of an entry. -/
def entryKey (c : Lbrss.HostCallResult) : UInt64 := key c.ip c.port

/-- An entry stands under the key that leads to its host. -/
theorem entry_lookup (h : Book lb) (hsh : ∀ k, ∃ slot, lb.Shows k slot)
    (ha : a ∈ lb.idleList ++ lb.overloadList) {c : Lbrss.HostCallResult} (hc : ReportsHost lb.heap a c) :
    lb.hostMap.lookup (entryKey c) = some a := by
  obtain ⟨hi, hr, rfl⟩ := hc
  obtain ⟨⟨k, hk⟩, -⟩ := h.listed a ha
  obtain ⟨slot, hslot⟩ := hsh k
  cases slot with
  | absent =>
    have hnone : lb.hostMap.lookup k = none := hslot
    rw [hk] at hnone
    cases hnone
  | live hi' succ err =>
    obtain ⟨b, hkb, hrb, hkey, -, -⟩ := hslot
    rw [hk] at hkb
    cases hkb
    rw [hr] at hrb
    cases hrb
    show lb.hostMap.lookup (key (endpoint hi).ip (endpoint hi).port) = some a
    rw [hkey, hk]
  | dropped =>
    obtain ⟨b, hkb, hg⟩ := hslot
    rw [hk] at hkb
    cases hkb
    rw [hg.2] at hr
    cases hr

theorem ReportsHost.unique {heap : Heap HostInfo} {c d : Lbrss.HostCallResult} (hc : ReportsHost heap a c)
    (hd : ReportsHost heap a d) : c = d := by
  obtain ⟨hi, hr, rfl⟩ := hc
  obtain ⟨hi', hr', rfl⟩ := hd
  rw [hr] at hr'
  cases hr'
  rfl

/-- The live slots are the ones with an entry. -/
theorem shown_entry (h : Book lb) {slot : Slot} (hsh : lb.Shows k slot) {c : Lbrss.HostCallResult} :
    (∃ x ∈ lb.idleList ++ lb.overloadList, ReportsHost lb.heap x c ∧ lb.hostMap.lookup k = some x) ↔
      ∃ hi succ err, slot = .live hi succ err ∧ c = entryOf hi succ err := by
  cases slot with
  | absent =>
    refine ⟨?_, fun ⟨hi, succ, err, hslot, _⟩ => by cases hslot⟩
    rintro ⟨x, -, -, hk⟩
    have hnone : lb.hostMap.lookup k = none := hsh
    rw [hk] at hnone
    cases hnone
  | live hi succ err =>
    obtain ⟨b, hk, hr, -, hsucc, herr⟩ := hsh
    have hentry : ReportsHost lb.heap b (entryOf hi succ err) := by
      refine ⟨hi, hr, ?_⟩
      rw [hsucc, herr]
      rfl
    constructor
    · rintro ⟨x, -, hx, hkx⟩
      rw [hk] at hkx
      cases hkx
      exact ⟨hi, succ, err, rfl, hx.unique hentry⟩
    · rintro ⟨hi', succ', err', hslot, rfl⟩
      cases hslot
      obtain ⟨-, -, hc, -⟩ := h.placed hk hr
      exact ⟨b, List.count_pos_iff.1 (by omega), hentry, hk⟩
  | dropped =>
    refine ⟨?_, fun ⟨hi, succ, err, hslot, _⟩ => by cases hslot⟩
    rintro ⟨x, -, ⟨hi, hr, -⟩, hkx⟩
    obtain ⟨b, hk, hg⟩ := hsh
    rw [hk] at hkx
    cases hkx
    rw [hg.2] at hr
    cases hr

theorem Book.nodup (h : Book lb) : (lb.idleList ++ lb.overloadList).Nodup := by
  refine List.nodup_iff_count_le_one.2 fun a => ?_
  by_cases ha : a ∈ lb.idleList ++ lb.overloadList
  · obtain ⟨hi, -, hc, -⟩ := (h.listed a ha).2
    omega
  · rw [List.count_eq_zero_of_not_mem ha]
    omega

/-- Where each element of one list leads back to its partner, the partners' order is kept. -/
theorem map_eq_of_forall₂ {α β : Type*} {R : α → β → Prop} {f : β → Option α} {l : List α} {m : List β}
    (h : List.Forall₂ R l m) (hf : ∀ x ∈ l, ∀ y, R x y → f y = some x) : m.map f = l.map some := by
  induction h with
  | nil => rfl
  | cons hxy _ ih =>
    rw [List.map_cons, List.map_cons, hf _ List.mem_cons_self _ hxy,
      ih fun x hx => hf x (List.mem_cons_of_mem _ hx)]

/-- No two entries are for the same host. -/
theorem Book.entries_nodup (h : Book lb) (hsh : ∀ k, ∃ slot, lb.Shows k slot) {r : Option Lbrss.ReportStatusRequest}
    (hall : List.Forall₂ (ReportsHost lb.heap) (lb.idleList ++ lb.overloadList) (entries r)) :
    ((entries r).map entryKey).Nodup := by
  have hnodup := h.nodup.map (Option.some_injective Addr)
  rw [← map_eq_of_forall₂ (f := fun c => lb.hostMap.lookup (entryKey c)) hall
    fun a ha c hc => entry_lookup h hsh ha hc] at hnodup
  refine List.Nodup.of_map (fun k => lb.hostMap.lookup k) ?_
  rw [List.map_map]
  exact hnodup

/-- **What a status report says.** After every run that goes through, whatever the responses
and in whatever order the calls came, `commit` sends one entry for each host that every
response named since the first that did, and none for any other; the entry has the state of
the host, and counts the successes and failures reported for it since it last changed its
state or its window closed. -/
theorem commit_tells {modid cmdid accessCnt : Int32} {ops : List Op}
    (hrun : Runs.run (step E) (new modid cmdid accessCnt) ops = .ok lb) (now : ℤ) :
    ∃ r, lb.commit E now = .ok r ∧
      (∀ req, r = some req → req.modid = modid ∧ req.cmdid = cmdid ∧
        req.caller = E.config.localIp.toInt32) ∧
      ((entries r).map entryKey).Nodup ∧
      ∀ k, ∃ a, ∀ c, (c ∈ entries r ∧ entryKey c = k) ↔
        ∃ hi succ err, slotOf E k a ops = .live hi succ err ∧ c = entryOf hi succ err := by
  obtain ⟨hbook, hshown⟩ := slot_shown hrun
  obtain ⟨r, hr, hids, hall⟩ := hbook.commit (E := E) now
  have hpair : lb.pair = ⟨modid, cmdid⟩ :=
    Runs.run_inv (I := fun t => t.pair = ⟨modid, cmdid⟩) (fun t op v ht hv => (step_pair hv).trans ht) rfl hrun
  obtain ⟨hmodid, hcmdid⟩ := Lbrss.GetRouteRequest.mk.inj hpair
  have hlookup : ∀ a ∈ lb.idleList ++ lb.overloadList, ∀ c, ReportsHost lb.heap a c →
      lb.hostMap.lookup (entryKey c) = some a := fun a ha c hc =>
    entry_lookup hbook (fun k => (hshown k).elim fun _ hk => ⟨_, hk⟩) ha hc
  refine ⟨r, hr, ?_, ?_, fun k => ?_⟩
  · intro req hreq
    obtain ⟨h1, h2, h3⟩ := hids req hreq
    exact ⟨h1.trans hmodid, h2.trans hcmdid, h3⟩
  · exact hbook.entries_nodup (fun k => (hshown k).elim fun _ hk => ⟨_, hk⟩) hall
  · obtain ⟨a, ha⟩ := hshown k
    refine ⟨a, fun c => Iff.trans ⟨?_, ?_⟩ (shown_entry hbook ha)⟩
    · rintro ⟨hc, rfl⟩
      obtain ⟨x, hx, hxc⟩ := (exists_of_forall₂ hall).1 c hc
      exact ⟨x, hx, hxc, hlookup x hx c hxc⟩
    · rintro ⟨x, hx, hxc, hk⟩
      obtain ⟨d, hd, hxd⟩ := (exists_of_forall₂ hall).2 x hx
      have hdc : d = c := hxd.unique hxc
      subst hdc
      exact ⟨hd, hbook.once _ _ x (hlookup x hx d hxc) hk⟩

/-- Two hosts; one of them fails, and is not named any more. -/
theorem commit_tells_dropped :
    ∃ lb, Runs.run (step Env.shipped) (new 1 1 0) [.update 0 (fun _ => ⟨0, 0⟩) ⟨1, 1, [⟨1, 80⟩, ⟨2, 80⟩]⟩,
        .report 1 1 1 80 4, .report 1 1 2 80 0, .update 2 (fun _ => ⟨0, 0⟩) ⟨1, 1, [⟨2, 80⟩]⟩] = .ok lb ∧
      ∃ r, lb.commit Env.shipped 3 = .ok r ∧
        (∀ req, r = some req → req.modid = 1 ∧ req.cmdid = 1 ∧
          req.caller = Env.shipped.config.localIp.toInt32) ∧
        ((entries r).map entryKey).Nodup ∧
        ∀ k, ∃ a, ∀ c, (c ∈ entries r ∧ entryKey c = k) ↔
          ∃ hi succ err, slotOf Env.shipped k a
            [.update 0 (fun _ => ⟨0, 0⟩) ⟨1, 1, [⟨1, 80⟩, ⟨2, 80⟩]⟩, .report 1 1 1 80 4,
              .report 1 1 2 80 0, .update 2 (fun _ => ⟨0, 0⟩) ⟨1, 1, [⟨2, 80⟩]⟩] = .live hi succ err ∧
            c = entryOf hi succ err := by
  obtain ⟨lb, hrun, -⟩ : ∃ lb, Runs.run (step Env.shipped) (new 1 1 0)
      [.update 0 (fun _ => ⟨0, 0⟩) ⟨1, 1, [⟨1, 80⟩, ⟨2, 80⟩]⟩, .report 1 1 1 80 4, .report 1 1 2 80 0,
        .update 2 (fun _ => ⟨0, 0⟩) ⟨1, 1, [⟨2, 80⟩]⟩] = .ok lb ∧ lb.idleList = [1] := by
    refine Runs.ok_of_toOption ?_
    decide +kernel
  exact ⟨lb, hrun, commit_tells hrun 3⟩

end LoadBalance

end LbRpc
