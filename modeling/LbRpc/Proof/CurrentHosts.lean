import LbRpc.Agent.RouteLB
import LbRpc.Proof.StatusReport

/-!
# The hosts of the last response

What a load balancer has at any time comes from the last response that was dealt with, also
where entries of `host_map_` lead to deleted hosts.

* `LoadBalance.Current`: each host that the response names has an entry, and each host that
  lives is named. An update establishes it, and every other call keeps it.
* `Current.served`, `Current.routes`: so what `pick_one_host` serves is one of the named
  hosts, and `get_route`, where it returns, returns all of them.
-/

namespace LbRpc

open Lbrss

namespace LoadBalance

variable {E : Env} {lb u : LoadBalance} {hosts : List Lbrss.HostInfo} {k : UInt64}

/-- **A load balancer as a response that names `hosts` leaves it**, and the calls after it: all
of them have an entry, and what still lives is one of them. -/
structure Current (hosts : List Lbrss.HostInfo) (lb : LoadBalance) : Prop where
  book : Book lb
  slots : ∀ k, ∃ slot, lb.Shows k slot ∧
    ∀ hi succ err, slot = .live hi succ err → k ∈ hosts.map fun g => key g.ip g.port
  named : ∀ g ∈ hosts, key g.ip g.port ∈ lb.hostMap

theorem current_new (modid cmdid accessCnt : Int32) : Current [] (new modid cmdid accessCnt) where
  book := book_new modid cmdid accessCnt
  slots := fun k => ⟨.absent, rfl, fun _ _ _ h => by cases h⟩
  named := fun g hg => by cases hg

/-- The status says nothing about the hosts. -/
theorem Current.status (h : Current hosts lb) (status : Status) : Current hosts { lb with status := status } where
  book := ⟨h.book.entry, h.book.listed, h.book.once⟩
  slots := fun k => by
    obtain ⟨slot, hsh, hlive⟩ := h.slots k
    refine ⟨slot, ?_, hlive⟩
    cases slot <;> exact hsh
  named := h.named

/-- The slot of a key after a call. -/
theorem Current.slot_after (h : Current hosts lb) {op : Op} (hs : step E lb op = .ok u) (k : UInt64) :
    ∃ (slot : Slot) (a : Addr), u.Shows k (slot.after E k a op) ∧
      ∀ hi succ err, slot = .live hi succ err → k ∈ hosts.map fun g => key g.ip g.port := by
  obtain ⟨slot, hsh, hlive⟩ := h.slots k
  refine ⟨slot, (u.hostMap.lookup k).getD 0, shows_step h.book hsh hs fun _ b hb => ?_, hlive⟩
  rw [hb]
  rfl

/-- A slot that is live after an update is named by it. -/
theorem live_update {slot : Slot} {a : Addr} {now : ℤ} {junk : Addr → Junk} {rsp : GetRouteResponse}
    {hi : HostInfo} {succ err : ℕ} (h : slot.after E k a (.update now junk rsp) = .live hi succ err) :
    k ∈ remoteHosts rsp := by
  cases slot with
  | absent =>
    by_contra hk
    have habs : Slot.made E k a junk rsp = .absent := made_absent.2 hk
    have hmade : Slot.made E k a junk rsp = .live hi succ err := h
    rw [habs] at hmade
    cases hmade
  | live hi' succ' err' =>
    by_contra hk
    unfold Slot.after at h
    dsimp only at h
    rw [if_neg hk] at h
    cases h
  | dropped => cases h

/-- Any other call makes no host. -/
theorem live_call {slot : Slot} {a : Addr} {op : Op} (hop : ∀ now junk rsp, op ≠ .update now junk rsp)
    {hi : HostInfo} {succ err : ℕ} (h : slot.after E k a op = .live hi succ err) :
    ∃ hi succ err, slot = .live hi succ err := by
  cases slot with
  | absent =>
    cases op with
    | update now junk rsp => exact absurd rfl (hop now junk rsp)
    | report now ts ip port rc => cases h
    | getAllHosts => cases h
    | pickOneHost => cases h
  | live hi' succ' err' => exact ⟨hi', succ', err', rfl⟩
  | dropped => cases op <;> cases h

/-- **An update** brings the hosts of its response. -/
theorem Current.update (h : Current hosts lb) {now : ℤ} {junk : Addr → Junk} {rsp : GetRouteResponse}
    (hu : lb.update E now junk rsp = .ok u) : Current rsp.host u := by
  have hs : step E lb (.update now junk rsp) = .ok u := hu
  refine ⟨h.book.step hs, fun k => ?_, fun g hg => (mem_update hu _).2 (Or.inl (mem_remoteHosts.2 hg))⟩
  obtain ⟨slot, a, hsh, -⟩ := h.slot_after hs k
  exact ⟨_, hsh, fun _ _ _ hlive => live_update hlive⟩

/-- **Any other call** keeps them. -/
theorem Current.call (h : Current hosts lb) {op : Op} (hop : ∀ now junk rsp, op ≠ .update now junk rsp)
    (hs : step E lb op = .ok u) (hmap : u.hostMap = lb.hostMap) : Current hosts u where
  book := h.book.step hs
  slots := fun k => by
    obtain ⟨slot, a, hsh, hnamed⟩ := h.slot_after hs k
    refine ⟨_, hsh, fun hi succ err hlive => ?_⟩
    obtain ⟨hi', succ', err', hslot⟩ := live_call hop hlive
    exact hnamed hi' succ' err' hslot
  named := by
    rw [hmap]
    exact h.named

theorem Current.report (h : Current hosts lb) {now ts : ℤ} {ip port rc : Int32} {v : Option HostInfo.Verdict}
    (hr : lb.report E now ts ip port rc = .ok (u, v)) : Current hosts u := by
  have hs : step E lb (.report now ts ip port rc) = .ok u := by
    unfold LoadBalance.step
    dsimp only
    rw [hr]
  exact h.call (by simp) hs (report_hostMap hr)

theorem Current.pick (h : Current hosts lb) {p : Picked} (hp : lb.pickOneHost E = .ok (u, p)) :
    Current hosts u := by
  have hs : step E lb .pickOneHost = .ok u := by
    unfold LoadBalance.step
    dsimp only
    rw [hp]
  exact h.call (by simp) hs (picked hp).frame.1

/-- A host that lives is one of them. -/
theorem Current.alive (h : Current hosts lb) {a : Addr} (hk : lb.hostMap.lookup k = some a) {hi : HostInfo}
    (hr : lb.heap.read a = some hi) : endpoint hi ∈ hosts ∧ key (endpoint hi).ip (endpoint hi).port = k := by
  obtain ⟨slot, hsh, hlive⟩ := h.slots k
  cases slot with
  | absent =>
    have hnone : lb.hostMap.lookup k = none := hsh
    rw [hk] at hnone
    cases hnone
  | live hi' succ err =>
    obtain ⟨b, hkb, hrb, hkey, -, -⟩ := hsh
    rw [hk] at hkb
    obtain rfl := Option.some.inj hkb
    rw [hr] at hrb
    obtain rfl := Option.some.inj hrb
    obtain ⟨g, hg, hgk⟩ := List.mem_map.1 (hlive hi succ err rfl)
    obtain ⟨hip, hport⟩ := key_inj (hgk.trans hkey.symm)
    refine ⟨?_, hkey⟩
    have heq : g = endpoint hi := by
      cases g
      exact congrArg₂ Lbrss.HostInfo.mk hip hport
    exact heq ▸ hg
  | dropped =>
    obtain ⟨b, hkb, hg⟩ := hsh
    rw [hk] at hkb
    obtain rfl := Option.some.inj hkb
    rw [hg.2] at hr
    cases hr

/-- **`pick_one_host` serves one of them.** -/
theorem Current.served (h : Current hosts lb) {p : Picked} (hp : PickedBy E lb u p) {x : Lbrss.HostInfo}
    (hx : p.host = some x) : x ∈ hosts := by
  have hlisted : ∀ a ∈ lb.idleList ++ lb.overloadList, ∀ hi, lb.heap.read a = some hi → endpoint hi ∈ hosts := by
    intro a ha hi hr
    obtain ⟨⟨k, hk⟩, -⟩ := h.book.listed a ha
    exact (h.alive hk hr).1
  cases hp with
  | overload hl hr _ =>
    obtain rfl := Option.some.inj hx
    exact hlisted _ (List.mem_append_right _ (hl ▸ List.mem_cons_self)) _ hr
  | reject _ _ => cases hx
  | idle hl hr _ =>
    obtain rfl := Option.some.inj hx
    exact hlisted _ (List.mem_append_left _ (hl ▸ List.mem_cons_self)) _ hr

theorem mapM_ok {α β : Type} {g : α → Except Fault β} : ∀ {l : List α} {bs : List β}, l.mapM g = .ok bs →
    List.Forall₂ (fun a b => g a = .ok b) l bs := by
  intro l
  induction l with
  | nil =>
    intro bs h
    cases h
    exact .nil
  | cons a l ih =>
    intro bs h
    rw [List.mapM_cons] at h
    rcases ha : g a with f | b
    · rw [ha] at h
      cases h
    rcases hl : l.mapM g with f | rest
    · rw [ha, hl] at h
      cases h
    rw [ha, hl] at h
    cases h
    exact .cons ha (ih hl)

/-- **`get_route` returns all of them**, when it returns. -/
theorem Current.routes (h : Current hosts lb) {l : List Lbrss.HostInfo}
    (hl : lb.getAllHosts.mapM (RouteLB.readHost lb.heap) = .ok l) (x : Lbrss.HostInfo) : x ∈ l ↔ x ∈ hosts := by
  obtain ⟨hto, hfrom⟩ := exists_of_forall₂ (mapM_ok hl)
  -- what is read at an entry of the map is the address of its host
  have hread : ∀ a y, RouteLB.readHost lb.heap a = .ok y → ∃ hi, lb.heap.read a = some hi ∧ y = endpoint hi := by
    intro a y hy
    unfold RouteLB.readHost at hy
    rcases hr : lb.heap.read a with _ | hi
    · rw [hr] at hy
      cases hy
    · rw [hr] at hy
      exact ⟨hi, rfl, (Except.ok.inj hy).symm⟩
  constructor
  · intro hx
    obtain ⟨a, ha, hax⟩ := hto x hx
    obtain ⟨hi, hr, rfl⟩ := hread a x hax
    obtain ⟨⟨k, b⟩, hs, rfl⟩ := List.mem_map.1 ha
    exact (h.alive (AList.mem_lookup_iff.2 hs) hr).1
  · intro hx
    obtain ⟨a, ha⟩ := Option.isSome_iff_exists.1 (AList.lookup_isSome.2 (h.named x hx))
    have hmem : a ∈ lb.getAllHosts := List.mem_map.2 ⟨_, AList.mem_lookup_iff.1 ha, rfl⟩
    obtain ⟨y, hy, hay⟩ := hfrom a hmem
    obtain ⟨hi, hr, rfl⟩ := hread a y hay
    obtain ⟨hip, hport⟩ := key_inj (h.alive ha hr).2
    have heq : endpoint hi = x := by
      cases x
      exact congrArg₂ Lbrss.HostInfo.mk hip hport
    exact heq ▸ hy

end LoadBalance

end LbRpc
