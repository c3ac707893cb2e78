import LbRpc.Proof.CallFrame
import LbRpc.Proof.Packing

/-!
# What one update does to the two lists

* `insertHosts_fresh`: the first loop appends one new host for each new pair of the
  response, in order of first appearance.
* `deleteHosts_ok`: the last loop takes exactly the hosts of its keys out of the lists.
* `update_lists`: after an `update` the lists hold the hosts that the response names, each
  once; the ones that were there are untouched and in their old order.
-/

namespace LbRpc

/-- Of equal entries the first one stays. -/
theorem nodup_eraseDups {α : Type*} [BEq α] [LawfulBEq α] : ∀ l : List α, l.eraseDups.Nodup := by
  intro l
  induction hn : l.length using Nat.strong_induction_on generalizing l with
  | _ n ih =>
    cases l with
    | nil => simp
    | cons a l =>
      have hlen : (l.filter fun b => !b == a).length < n := by
        have := List.length_filter_le (fun b => !b == a) l
        rw [List.length_cons] at hn
        omega
      rw [List.eraseDups_cons, List.nodup_cons]
      refine ⟨fun hmem => ?_, ih _ hlen _ rfl⟩
      rw [List.mem_eraseDups, List.mem_filter] at hmem
      simp at hmem

namespace LoadBalance

variable {E : Env} {lb lb' t : LoadBalance} {a b : Addr} {k : UInt64} {junk : Addr → Junk}

/-- The `(ip, port)` of a host, as the messages have it. -/
def endpoint (hi : HostInfo) : Lbrss.HostInfo := ⟨hi.ip.toInt32, hi.port⟩

/-- The map is keyed by the `(ip, port)` of its hosts. -/
def Keyed (lb : LoadBalance) : Prop :=
  ∀ k a hi, lb.hostMap.lookup k = some a → lb.heap.read a = some hi →
    k = key (endpoint hi).ip (endpoint hi).port

/-- Does the response name the host behind the pointer? -/
def named (rsp : Lbrss.GetRouteResponse) (lb : LoadBalance) (a : Addr) : Bool :=
  match lb.heap.read a with
  | none => false
  | some hi => decide (endpoint hi ∈ rsp.host)

/-- The pairs of a response that the map does not have, in order of first appearance. -/
def newPairs (gs : List Lbrss.HostInfo) (lb : LoadBalance) : List Lbrss.HostInfo :=
  (gs.filter fun g => decide (key g.ip g.port ∉ lb.hostMap)).eraseDups

/-- The host that `update` makes for a pair: `init_succ_cnt` virtual successes, and no other
count. -/
def newHost (E : Env) (junk : Addr → Junk) (a : Addr) (g : Lbrss.HostInfo) : HostInfo :=
  HostInfo.new g.ip.toUInt32 g.port E.config.initSuccCnt.toUInt32 (junk a)

theorem endpoint_newHost (g : Lbrss.HostInfo) : endpoint (newHost E junk a g) = g := by
  unfold endpoint newHost HostInfo.new
  simp

/-! ## The first loop -/

theorem insertHost_known {g : Lbrss.HostInfo} (h : key g.ip g.port ∈ lb.hostMap) :
    lb.insertHost E junk g = lb := by
  unfold insertHost
  rw [if_pos (AList.lookup_isSome.2 h)]

theorem insertHost_new {g : Lbrss.HostInfo} (h : key g.ip g.port ∉ lb.hostMap) :
    lb.insertHost E junk g =
      { lb with
        hostMap := lb.hostMap.insert (key g.ip g.port) lb.heap.next
        idleList := lb.idleList ++ [lb.heap.next]
        heap := lb.heap.alloc (newHost E junk lb.heap.next g) } := by
  unfold insertHost
  rw [if_neg fun hs => h (AList.lookup_isSome.1 hs)]
  rfl

/-- The new host of a pair: it is live and the map leads to it. -/
def IsNew (E : Env) (junk : Addr → Junk) (lb : LoadBalance) (a : Addr) (g : Lbrss.HostInfo) : Prop :=
  lb.hostMap.lookup (key g.ip g.port) = some a ∧ lb.heap.read a = some (newHost E junk a g)

/-- What the first loop does. -/
structure Inserted (E : Env) (junk : Addr → Junk) (gs : List Lbrss.HostInfo) (lb t : LoadBalance)
    (fresh : List Addr) : Prop where
  idle : t.idleList = lb.idleList ++ fresh
  overload : t.overloadList = lb.overloadList
  lookup : ∀ k ∈ lb.hostMap, t.hostMap.lookup k = lb.hostMap.lookup k
  read : ∀ a hi, lb.heap.read a = some hi → t.heap.read a = some hi
  fresh : List.Forall₂ (IsNew E junk t) fresh (newPairs gs lb)

/-- The pairs that are new behind a new pair `g`. -/
theorem newPairs_cons {g : Lbrss.HostInfo} (gs : List Lbrss.HostInfo) (h : key g.ip g.port ∉ lb.hostMap) :
    newPairs (g :: gs) lb = g :: newPairs gs (lb.insertHost E junk g) := by
  have hfilter : ((g :: gs).filter fun x => decide (key x.ip x.port ∉ lb.hostMap)) =
      g :: gs.filter fun x => decide (key x.ip x.port ∉ lb.hostMap) :=
    List.filter_cons_of_pos (by simpa using h)
  unfold newPairs
  rw [hfilter, List.eraseDups_cons, List.filter_filter]
  congr 2
  refine List.filter_congr fun x _ => ?_
  -- behind `g` the map has the old keys and the key of `g`
  have hmem : key x.ip x.port ∈ (lb.insertHost E junk g).hostMap ↔ x = g ∨ key x.ip x.port ∈ lb.hostMap := by
    rw [mem_insertHost]
    refine or_congr_left ⟨fun hk => ?_, fun hx => by rw [hx]⟩
    obtain ⟨hip, hport⟩ := key_inj hk
    cases x
    cases g
    simp_all
  rw [Bool.eq_iff_iff]
  simp only [hmem, Bool.and_eq_true, decide_eq_true_eq, Bool.not_eq_true', beq_eq_false_iff_ne, not_or]

/-- **The first loop** appends one new host for each new pair, and touches no other. -/
theorem insertHosts_fresh (junk : Addr → Junk) : ∀ (gs : List Lbrss.HostInfo) (lb : LoadBalance),
    ∃ fresh, Inserted E junk gs lb (gs.foldl (insertHost E junk) lb) fresh := by
  intro gs
  induction gs with
  | nil => exact fun lb => ⟨[], by simp, rfl, fun _ _ => rfl, fun _ _ => id, by simp [newPairs]⟩
  | cons g gs ih =>
    intro lb
    rw [List.foldl_cons]
    obtain ⟨fresh, hins⟩ := ih (lb.insertHost E junk g)
    by_cases hg : key g.ip g.port ∈ lb.hostMap
    · -- a pair that the map has, before the response or by an earlier entry of it
      have hsame : newPairs (g :: gs) lb = newPairs gs lb := by
        unfold newPairs
        rw [List.filter_cons_of_neg (by simpa using hg)]
      rw [insertHost_known hg] at hins ⊢
      exact ⟨fresh, hins.idle, hins.overload, hins.lookup, hins.read, by rw [hsame]; exact hins.fresh⟩
    · have hnew : lb.insertHost E junk g = _ := insertHost_new hg
      have hmap : (lb.insertHost E junk g).hostMap = lb.hostMap.insert (key g.ip g.port) lb.heap.next := by
        rw [hnew]
      have hheap : (lb.insertHost E junk g).heap = lb.heap.alloc (newHost E junk lb.heap.next g) := by
        rw [hnew]
      have hin : key g.ip g.port ∈ (lb.insertHost E junk g).hostMap := mem_insertHost.2 (Or.inl rfl)
      refine ⟨lb.heap.next :: fresh, {
        idle := ?idle, overload := ?overload, lookup := ?lookup, read := ?read, fresh := ?fresh }⟩
      case idle =>
        rw [hins.idle, hnew]
        simp
      case overload =>
        rw [hins.overload, hnew]
      case lookup =>
        intro k hk
        have hne : k ≠ key g.ip g.port := fun he => hg (he ▸ hk)
        rw [hins.lookup k (mem_insertHost.2 (Or.inr hk)), hmap, AList.lookup_insert_ne hne]
      case read =>
        intro a hi ha
        refine hins.read a hi ?_
        rw [hheap]
        exact Heap.read_alloc_of_read ha
      case fresh =>
        rw [newPairs_cons gs hg]
        refine .cons ⟨?_, ?_⟩ hins.fresh
        · rw [hins.lookup _ hin, hmap, AList.lookup_insert]
        · refine hins.read _ _ ?_
          rw [hheap]
          exact Heap.read_alloc_next

/-- The new pairs of a response are its pairs that the map does not have. -/
theorem mem_newPairs {gs : List Lbrss.HostInfo} {g : Lbrss.HostInfo} :
    g ∈ newPairs gs lb ↔ g ∈ gs ∧ key g.ip g.port ∉ lb.hostMap := by
  unfold newPairs
  rw [List.mem_eraseDups, List.mem_filter, decide_eq_true_eq]

theorem exists_of_forall₂ {α β : Type*} {R : α → β → Prop} {l : List α} {m : List β}
    (h : List.Forall₂ R l m) : (∀ b ∈ m, ∃ a ∈ l, R a b) ∧ ∀ a ∈ l, ∃ b ∈ m, R a b := by
  induction h with
  | nil => simp
  | cons hab _ ih =>
    simp only [List.mem_cons, forall_eq_or_imp, exists_eq_or_imp]
    exact ⟨⟨Or.inl hab, fun b hb => Or.inr (ih.1 b hb)⟩, Or.inl hab, fun a ha => Or.inr (ih.2 a ha)⟩

/-- The map stays keyed by its hosts. -/
theorem Inserted.keyed {gs : List Lbrss.HostInfo} {fresh : List Addr} (hp : lb.AllPlaced) (hk : lb.Keyed)
    (h : Inserted E junk gs lb (gs.foldl (insertHost E junk) lb) fresh) :
    (gs.foldl (insertHost E junk) lb).Keyed := by
  intro k a hi hlook hread
  by_cases hold : k ∈ lb.hostMap
  · -- an old entry leads to the host that it led to
    rw [h.lookup k hold] at hlook
    obtain ⟨hi', hr, -⟩ := hp k a hlook
    have hsame := h.read a hi' hr
    rw [hread] at hsame
    cases hsame
    exact hk k a hi hlook hr
  · have hmem : k ∈ (gs.foldl (insertHost E junk) lb).hostMap :=
      AList.lookup_isSome.1 (by rw [hlook]; rfl)
    rcases (mem_insertHosts gs lb).1 hmem with ⟨g, hg, rfl⟩ | hin
    · obtain ⟨a', -, hlook', hread'⟩ := (exists_of_forall₂ h.fresh).1 g (mem_newPairs.2 ⟨hg, hold⟩)
      rw [hlook] at hlook'
      cases hlook'
      rw [hread] at hread'
      cases hread'
      rw [endpoint_newHost]
    · exact absurd hin hold

/-! ## The last loop -/

/-- Deleting takes the host out of the lists and off the heap. -/
theorem Placed.deleteHost (h : lb.Placed a) (hk : lb.hostMap.lookup k = some a) :
    lb.deleteHost k = .ok { lb with
      idleList := lb.idleList.filter (· ≠ a)
      overloadList := lb.overloadList.filter (· ≠ a)
      heap := lb.heap.free a } := by
  obtain ⟨hi, hr, hc, hf⟩ := h
  -- the list that is not searched does not have the host
  have hkeep : ∀ l : List Addr, a ∉ l → l.filter (· ≠ a) = l := by
    intro l hl
    rw [List.filter_eq_self]
    intro b hb
    have hne : b ≠ a := fun heq => hl (heq ▸ hb)
    simpa using hne
  rw [List.count_append] at hc
  unfold LoadBalance.deleteHost
  simp only [hk, hr]
  cases ho : hi.overload with
  | true =>
    have hidle : a ∉ lb.idleList := fun hmem => by
      have h1 := List.count_pos_iff.2 hmem
      have h2 := List.count_pos_iff.2 (hf.2 ho)
      omega
    rw [if_pos rfl, hkeep _ hidle]
  | false =>
    have hover : a ∉ lb.overloadList := fun hmem => by
      rw [hf.1 hmem] at ho
      cases ho
    rw [if_neg (by simp), hkeep _ hover]

/-- No key of `ks` leads to the host. -/
def spared (ks : List UInt64) (lb : LoadBalance) (a : Addr) : Bool :=
  ks.all fun k => decide (¬lb.hostMap.lookup k = some a)

theorem spared_iff {ks : List UInt64} : spared ks lb a = true ↔ ∀ k ∈ ks, lb.hostMap.lookup k ≠ some a := by
  unfold spared
  simp only [List.all_eq_true, decide_eq_true_eq, ne_eq]

/-- What the last loop does. -/
structure Deleted (ks : List UInt64) (lb t : LoadBalance) : Prop where
  hostMap : t.hostMap = lb.hostMap
  idle : t.idleList = lb.idleList.filter (spared ks lb)
  overload : t.overloadList = lb.overloadList.filter (spared ks lb)
  read : ∀ a, spared ks lb a = true → t.heap.read a = lb.heap.read a

/-- **The last loop** deletes the hosts of its keys, and touches no other. -/
theorem deleteHosts_ok : ∀ (ks : List UInt64) (lb : LoadBalance), ks.Nodup →
    (∀ k ∈ ks, ∃ a, lb.hostMap.lookup k = some a ∧ lb.Placed a) →
    (∀ k k' a, lb.hostMap.lookup k = some a → lb.hostMap.lookup k' = some a → k = k') →
    ∃ t, Runs.run deleteHost lb ks = .ok t ∧ Deleted ks lb t := by
  intro ks
  induction ks with
  | nil =>
    intro lb _ _ _
    have hall : ∀ l : List Addr, l.filter (spared [] lb) = l := fun l =>
      List.filter_eq_self.2 fun a _ => spared_iff.2 fun k hk => by cases hk
    exact ⟨lb, rfl, rfl, (hall _).symm, (hall _).symm, fun _ _ => rfl⟩
  | cons k ks ih =>
    intro lb hnodup hplaced hinj
    obtain ⟨a, hk, ha⟩ := hplaced k List.mem_cons_self
    obtain ⟨hknot, hnodup⟩ := List.nodup_cons.1 hnodup
    set u : LoadBalance := { lb with
      idleList := lb.idleList.filter (· ≠ a)
      overloadList := lb.overloadList.filter (· ≠ a)
      heap := lb.heap.free a } with hu
    have hdel : lb.deleteHost k = .ok u := ha.deleteHost hk
    have hrest : ∀ k' ∈ ks, ∃ b, u.hostMap.lookup k' = some b ∧ u.Placed b := by
      intro k' hk'
      obtain ⟨b, hb, hi, hr, hc, hf⟩ := hplaced k' (List.mem_cons_of_mem k hk')
      -- its host is another one, as its key is
      have hba : b ≠ a := fun heq => hknot (hinj k' k a (heq ▸ hb) hk ▸ hk')
      refine ⟨b, hb, hi, (Heap.read_free_ne hba).trans hr, ?_, ?_⟩
      · rw [List.count_append] at hc ⊢
        show (lb.idleList.filter (· ≠ a)).count b + (lb.overloadList.filter (· ≠ a)).count b = 1
        rw [count_filter_ne, count_filter_ne, if_neg hba, if_neg hba]
        exact hc
      · rw [← hf]
        show b ∈ lb.overloadList.filter (· ≠ a) ↔ _
        simp [hba]
    obtain ⟨t, ht, hd⟩ := ih u hnodup hrest hinj
    have hspared : ∀ b, spared (k :: ks) lb b = (spared ks u b && decide (b ≠ a)) := by
      intro b
      rw [Bool.eq_iff_iff]
      simp only [spared_iff, List.mem_cons, forall_eq_or_imp, decide_eq_true_eq, Bool.and_eq_true, hk,
        ne_eq, Option.some.injEq, hu]
      rw [and_comm, eq_comm]
    have hfilter : ∀ l : List Addr, (l.filter (· ≠ a)).filter (spared ks u) = l.filter (spared (k :: ks) lb) := by
      intro l
      rw [List.filter_filter]
      exact List.filter_congr fun b _ => (hspared b).symm
    refine ⟨t, Runs.run_cons_ok.2 ⟨u, hdel, ht⟩, hd.hostMap, ?_, ?_, fun b hb => ?_⟩
    · rw [hd.idle]
      exact hfilter _
    · rw [hd.overload]
      exact hfilter _
    · rw [hspared, Bool.and_eq_true, decide_eq_true_eq] at hb
      rw [hd.read b hb.1]
      exact Heap.read_free_ne hb.2

/-! ## The whole update -/

/-- In a map keyed by its hosts no two keys lead to one host. -/
theorem Keyed.inj (hk : lb.Keyed) (hp : lb.AllPlaced) {k k' : UInt64} (h : lb.hostMap.lookup k = some a)
    (h' : lb.hostMap.lookup k' = some a) : k = k' := by
  obtain ⟨hi, hr, -⟩ := hp k a h
  rw [hk k a hi h hr, hk k' a hi h' hr]

theorem mem_remoteHosts {rsp : Lbrss.GetRouteResponse} {g : Lbrss.HostInfo} :
    key g.ip g.port ∈ remoteHosts rsp ↔ g ∈ rsp.host := by
  unfold remoteHosts
  rw [List.mem_map]
  constructor
  · rintro ⟨g', hg', hkey⟩
    obtain ⟨hip, hport⟩ := key_inj hkey
    cases g
    cases g'
    cases hip
    cases hport
    exact hg'
  · exact fun hg => ⟨g, hg, rfl⟩

/-- The hosts of the keys that the response leaves out are those that it does not name. -/
theorem spared_eq_named (hk : lb.Keyed) (hp : lb.AllPlaced) (hl : lb.AllListed)
    (rsp : Lbrss.GetRouteResponse) (ha : a ∈ lb.idleList ++ lb.overloadList) :
    spared (lb.needDelete rsp) lb a = named rsp lb a := by
  obtain ⟨k, hka⟩ := hl a ha
  obtain ⟨hi, hr, -⟩ := hp k a hka
  have hkey := hk k a hi hka hr
  have hin : k ∈ lb.hostMap.keys := AList.mem_keys.2 (AList.lookup_isSome.1 (by rw [hka]; rfl))
  have hdel : ∀ k', k' ∈ lb.needDelete rsp ↔ k' ∈ lb.hostMap.keys ∧ k' ∉ remoteHosts rsp := by
    intro k'
    unfold needDelete
    rw [(List.perm_insertionSort _ _).mem_iff, List.mem_filter, decide_eq_true_eq]
  have hnamed : named rsp lb a = decide (endpoint hi ∈ rsp.host) := by
    unfold named
    rw [hr]
  rw [hnamed, Bool.eq_iff_iff]
  rw [spared_iff, decide_eq_true_eq, ← mem_remoteHosts, ← hkey]
  constructor
  · intro h
    by_contra hnot
    exact h k ((hdel k).2 ⟨hin, hnot⟩) hka
  · intro hmem k' hk' hlook
    rw [hk.inj hp hlook hka] at hk'
    exact ((hdel k).1 hk').2 hmem

/-- **What one `update` leaves behind**, with the new hosts `fresh`. -/
structure Updated (E : Env) (junk : Addr → Junk) (rsp : Lbrss.GetRouteResponse) (lb u : LoadBalance)
    (fresh : List Addr) : Prop where
  /-- the named hosts stay in their order, and the new ones follow -/
  idle : u.idleList = lb.idleList.filter (named rsp lb) ++ fresh
  overload : u.overloadList = lb.overloadList.filter (named rsp lb)
  /-- a host that stays keeps all of its fields -/
  kept : ∀ a ∈ lb.idleList ++ lb.overloadList, named rsp lb a = true → u.heap.read a = lb.heap.read a
  fresh : List.Forall₂ (fun a g => u.heap.read a = some (newHost E junk a g)) fresh
    (newPairs rsp.host lb)
  /-- the lists hold what the response names, each once -/
  pairs : ((u.idleList ++ u.overloadList).map fun a => (u.heap.read a).map endpoint).Perm
    (rsp.host.eraseDups.map some)
  nodup : (u.idleList ++ u.overloadList).Nodup

/-- The hosts in the lists of a keyed map, up to order. -/
theorem perm_pairs (hk : lb.Keyed) (hp : lb.AllPlaced) (hl : lb.AllListed) {l : List Addr}
    {gs : List Lbrss.HostInfo} (hnodup : l.Nodup) (hsub : ∀ a ∈ l, a ∈ lb.idleList ++ lb.overloadList)
    (hto : ∀ a ∈ l, ∀ hi, lb.heap.read a = some hi → endpoint hi ∈ gs)
    (hfrom : ∀ g ∈ gs, ∃ a ∈ l, (lb.heap.read a).map endpoint = some g) :
    (l.map fun a => (lb.heap.read a).map endpoint).Perm (gs.eraseDups.map some) := by
  have hlive : ∀ a ∈ l, ∃ k hi, lb.hostMap.lookup k = some a ∧ lb.heap.read a = some hi ∧
      k = key (endpoint hi).ip (endpoint hi).port := by
    intro a ha
    obtain ⟨k, hka⟩ := hl a (hsub a ha)
    obtain ⟨hi, hr, -⟩ := hp k a hka
    exact ⟨k, hi, hka, hr, hk k a hi hka hr⟩
  have hinj : ∀ a ∈ l, ∀ b ∈ l, (lb.heap.read a).map endpoint = (lb.heap.read b).map endpoint → a = b := by
    intro a ha b hb heq
    obtain ⟨k, hi, hka, hra, hkey⟩ := hlive a ha
    obtain ⟨k', hi', hkb, hrb, hkey'⟩ := hlive b hb
    rw [hra, hrb] at heq
    have hsame : endpoint hi = endpoint hi' := Option.some.inj heq
    rw [hkey, hsame, ← hkey', hkb] at hka
    exact (Option.some.inj hka).symm
  refine (List.perm_ext_iff_of_nodup (hnodup.map_on hinj)
    ((nodup_eraseDups gs).map (Option.some_injective _))).2 fun x => ?_
  simp only [List.mem_map, List.mem_eraseDups]
  constructor
  · rintro ⟨a, ha, rfl⟩
    obtain ⟨k, hi, -, hr, -⟩ := hlive a ha
    exact ⟨endpoint hi, hto a ha hi hr, by rw [hr]; rfl⟩
  · rintro ⟨g, hg, rfl⟩
    exact hfrom g hg

/-- The named hosts of a map that has all the pairs of the response are these pairs. -/
theorem perm_named (hk : lb.Keyed) (hp : lb.AllPlaced) (hl : lb.AllListed) {rsp : Lbrss.GetRouteResponse}
    (hall : ∀ g ∈ rsp.host, key g.ip g.port ∈ lb.hostMap) :
    (((lb.idleList ++ lb.overloadList).filter (named rsp lb)).map fun a =>
      (lb.heap.read a).map endpoint).Perm (rsp.host.eraseDups.map some) := by
  obtain ⟨hnodup, hmem⟩ := lists_exact hp hl
  refine perm_pairs hk hp hl (hnodup.filter _) (fun a ha => (List.mem_filter.1 ha).1) ?_ ?_
  · intro a ha hi hr
    have hn := (List.mem_filter.1 ha).2
    unfold named at hn
    rw [hr, decide_eq_true_eq] at hn
    exact hn
  · intro g hg
    obtain ⟨a, ha⟩ := Option.isSome_iff_exists.1 (AList.lookup_isSome.2 (hall g hg))
    obtain ⟨hi, hr, -⟩ := hp _ a ha
    have hg' : endpoint hi = g := by
      obtain ⟨hip, hport⟩ := key_inj (hk _ a hi ha hr)
      cases g
      cases hip
      cases hport
      rfl
    refine ⟨a, List.mem_filter.2 ⟨(hmem a).2 ⟨_, ha⟩, ?_⟩, by rw [hr, ← hg']; rfl⟩
    unfold named
    rw [hr, decide_eq_true_eq, hg']
    exact hg

/-- A host that was there is still listed behind the first loop, and named if it was. -/
theorem Inserted.old {rsp : Lbrss.GetRouteResponse} {fresh : List Addr} {t : LoadBalance}
    (h : Inserted E junk rsp.host lb t fresh) (hp : lb.AllPlaced) (hl : lb.AllListed)
    (ha : a ∈ lb.idleList ++ lb.overloadList) :
    a ∈ t.idleList ++ t.overloadList ∧ named rsp t a = named rsp lb a ∧ t.heap.read a = lb.heap.read a := by
  obtain ⟨k, hka⟩ := hl a ha
  obtain ⟨hi, hr, -⟩ := hp k a hka
  refine ⟨?_, ?_, ?_⟩
  · rw [h.idle, h.overload]
    simp only [List.mem_append] at ha ⊢
    tauto
  · unfold named
    rw [hr, h.read a hi hr]
  · rw [hr, h.read a hi hr]

/-- A new host is listed and named. -/
theorem Inserted.new {rsp : Lbrss.GetRouteResponse} {fresh : List Addr} {t : LoadBalance}
    (h : Inserted E junk rsp.host lb t fresh) (ha : a ∈ fresh) :
    a ∈ t.idleList ++ t.overloadList ∧ named rsp t a = true := by
  obtain ⟨g, hg, -, hr⟩ := (exists_of_forall₂ h.fresh).2 a ha
  refine ⟨by rw [h.idle]; simp [ha], ?_⟩
  unfold named
  rw [hr, decide_eq_true_eq, endpoint_newHost]
  exact (mem_newPairs.1 hg).1

/-- The last loop of an update leaves the named hosts. -/
theorem deleteHosts_named (hk : lb.Keyed) (hp : lb.AllPlaced) (hl : lb.AllListed)
    (rsp : Lbrss.GetRouteResponse) : ∃ u, Runs.run deleteHost lb (lb.needDelete rsp) = .ok u ∧
      u.idleList = lb.idleList.filter (named rsp lb) ∧
      u.overloadList = lb.overloadList.filter (named rsp lb) ∧
      ∀ a ∈ lb.idleList ++ lb.overloadList, named rsp lb a = true → u.heap.read a = lb.heap.read a := by
  -- the keys to delete are keys of the map, each once
  have hnodup : (lb.needDelete rsp).Nodup := by
    unfold needDelete
    rw [(List.perm_insertionSort _ _).nodup_iff]
    exact lb.hostMap.keys_nodup.filter _
  have hplaced : ∀ k ∈ lb.needDelete rsp, ∃ a, lb.hostMap.lookup k = some a ∧ lb.Placed a := by
    intro k hkd
    unfold needDelete at hkd
    rw [(List.perm_insertionSort _ _).mem_iff, List.mem_filter] at hkd
    obtain ⟨a, ha⟩ := Option.isSome_iff_exists.1 (AList.lookup_isSome.2 (AList.mem_keys.2 hkd.1))
    exact ⟨a, ha, hp k a ha⟩
  obtain ⟨u, hu, hdel⟩ := deleteHosts_ok _ lb hnodup hplaced fun k k' a h h' => hk.inj hp h h'
  have hstay : ∀ a ∈ lb.idleList ++ lb.overloadList, spared (lb.needDelete rsp) lb a = named rsp lb a :=
    fun a ha => spared_eq_named hk hp hl rsp ha
  refine ⟨u, hu, ?_, ?_, fun a ha hn => hdel.read a ((hstay a ha).trans hn)⟩
  · rw [hdel.idle]
    exact List.filter_congr fun a ha => hstay a (List.mem_append_left _ ha)
  · rw [hdel.overload]
    exact List.filter_congr fun a ha => hstay a (List.mem_append_right _ ha)

/-- **An update reconciles the lists with the response.** -/
theorem update_lists (E : Env) (lb : LoadBalance) (hk : lb.Keyed) (hp : lb.AllPlaced) (hl : lb.AllListed)
    (now : ℤ) (junk : Addr → Junk) (rsp : Lbrss.GetRouteResponse) (hne : rsp.host ≠ []) :
    ∃ u fresh, lb.update E now junk rsp = .ok u ∧ Updated E junk rsp lb u fresh := by
  obtain ⟨fresh, hins⟩ := insertHosts_fresh (E := E) junk rsp.host lb
  have htk := hins.keyed hp hk
  have hok := HostsOK.insertHosts (E := E) junk rsp.host lb ⟨hp, hl⟩
  set t := rsp.host.foldl (insertHost E junk) lb with ht
  have htp : t.AllPlaced := hok.placed
  have htl : t.AllListed := hok.listed
  obtain ⟨u, hu, hidle, hover, hread⟩ := deleteHosts_named htk htp htl rsp
  -- the lists are the named hosts of the lists behind the first loop
  have hlists : u.idleList ++ u.overloadList = (t.idleList ++ t.overloadList).filter (named rsp t) := by
    rw [hidle, hover, List.filter_append]
  refine ⟨{ u with lastUpdateTime := now, status := .new }, fresh, ?ok, {
    idle := ?idle, overload := ?overload, kept := ?kept, fresh := ?fresh, pairs := ?pairs
    nodup := ?nodup }⟩
  case ok =>
    unfold update
    rw [if_neg hne]
    simp only [← ht, hu]
  case idle =>
    show u.idleList = _
    rw [hidle, hins.idle, List.filter_append]
    have hkept : lb.idleList.filter (named rsp t) = lb.idleList.filter (named rsp lb) :=
      List.filter_congr fun a ha => (hins.old hp hl (List.mem_append_left _ ha)).2.1
    have hnew : fresh.filter (named rsp t) = fresh :=
      List.filter_eq_self.2 fun a ha => (hins.new ha).2
    rw [hkept, hnew]
  case overload =>
    show u.overloadList = _
    rw [hover, hins.overload]
    exact List.filter_congr fun a ha => (hins.old hp hl (List.mem_append_right _ ha)).2.1
  case kept =>
    intro a ha hn
    obtain ⟨hin, hsame, hsameRead⟩ := hins.old hp hl ha
    show u.heap.read a = lb.heap.read a
    rw [hread a hin (hsame.trans hn), hsameRead]
  case fresh =>
    have hall : ∀ a ∈ fresh, u.heap.read a = t.heap.read a :=
      fun a ha => hread a (hins.new ha).1 (hins.new ha).2
    refine (List.forall₂_and_left _ _).2 ⟨hall, hins.fresh⟩ |>.imp fun a g h => ?_
    show u.heap.read a = _
    rw [h.1]
    exact h.2.2
  case pairs =>
    show ((u.idleList ++ u.overloadList).map fun a => (u.heap.read a).map endpoint).Perm _
    have hin : ∀ g ∈ rsp.host, key g.ip g.port ∈ t.hostMap := fun g hg =>
      (mem_insertHosts rsp.host lb).2 (Or.inl ⟨g, hg, rfl⟩)
    rw [hlists]
    refine (List.Perm.of_eq (List.map_congr_left fun a ha => ?_)).trans (perm_named htk htp htl hin)
    obtain ⟨hmem, hn⟩ := List.mem_filter.1 ha
    rw [hread a hmem hn]
  case nodup =>
    show (u.idleList ++ u.overloadList).Nodup
    rw [hlists]
    exact (lists_exact htp htl).1.filter _

/-- One of two hosts goes, and a new pair is named twice. -/
theorem update_lists_two :
    ∃ u fresh, oneOfTwo.update Env.shipped 5 (fun _ => ⟨0, 0⟩) ⟨1, 1, [⟨3, 80⟩, ⟨2, 80⟩, ⟨3, 80⟩]⟩ = .ok u ∧
      Updated Env.shipped (fun _ => ⟨0, 0⟩) ⟨1, 1, [⟨3, 80⟩, ⟨2, 80⟩, ⟨3, 80⟩]⟩ oneOfTwo u fresh := by
  have hkeyed : oneOfTwo.Keyed := by
    intro k a hi hk hr
    rcases oneOfTwo_lookup hk with ⟨rfl, rfl⟩ | ⟨rfl, rfl⟩
    · cases hr
      decide
    · cases hr
      decide
  exact update_lists Env.shipped oneOfTwo hkeyed oneOfTwo_placed oneOfTwo_listed 5 _ _ (by simp)

end LoadBalance

end LbRpc
