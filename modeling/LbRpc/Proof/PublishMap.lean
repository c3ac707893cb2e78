import LbRpc.Dns.PublishMap

/-!
# When `make_publish_map` gets through its list

* `publishLoop_offline`: entries that nobody waits for are passed over.
* `publishLoop_online`: the loop does not get past an entry of a descriptor that is online,
  whatever stands in front of it and behind it.
* `make_publish_map_iff`: so it does its work exactly when it has none.
-/

namespace LbRpc

namespace SubscribeList

variable {onlineFds : Finset Fd} {need need' : PublishMap} {push push' : PushList}
  {l r : List (Node Fd (Finset UInt64))}

/-- **What `make_publish_map` is for**: the entries of the descriptors that are online go to
`need_publish`, with all their mods, and the others stay. -/
structure Published (onlineFds : Finset Fd) (push : PushList) (need : PublishMap) (push' : PushList) :
    Prop where
  need : ∀ fd, need fd = if fd ∈ onlineFds then push.find? fd else none
  rest : ∀ fd, push'.find? fd = if fd ∈ onlineFds then none else push.find? fd

variable {x : Node Fd (Finset UInt64)}

theorem publishLoop_pass (hnodes : push.nodes = l ++ x :: r) (hx : x.key ∉ onlineFds) (fuel : ℕ) :
    publishLoop onlineFds (fuel + 1) (some x.addr) need push =
      publishLoop onlineFds fuel (r.head?.map Node.addr) need push := by
  have hentry : publishEntry onlineFds x.addr x need push = (need, push) := if_neg hx
  rw [publishLoop, NodeMap.deref_of_split hnodes]
  dsimp only
  rw [hentry]
  dsimp only
  rw [NodeMap.next_of_split hnodes]

/-- The node of the iterator is gone when the iterator is advanced. -/
theorem publishLoop_match (hnodes : push.nodes = l ++ x :: r) (hx : x.key ∈ onlineFds) (fuel : ℕ) :
    publishLoop onlineFds (fuel + 1) (some x.addr) need push = .error .outOfBounds := by
  have hentry : ∃ need' grown, publishEntry onlineFds x.addr x need push = (need', NodeMap.erase x.addr grown) :=
    ⟨_, _, if_pos hx⟩
  obtain ⟨need', grown, hentry⟩ := hentry
  rw [publishLoop, NodeMap.deref_of_split hnodes]
  dsimp only
  rw [hentry]
  dsimp only
  rw [NodeMap.next_erase]

/-- The loop passes over the rest of a list whose descriptors are all offline. -/
theorem publishLoop_offline (hnodes : push.nodes = l ++ r) (hoff : ∀ x ∈ r, x.key ∉ onlineFds) :
    publishLoop onlineFds (r.length + 1) (r.head?.map Node.addr) need push = .ok (need, push) := by
  induction r generalizing l with
  | nil => rfl
  | cons x r ih =>
    have hrest : push.nodes = (l ++ [x]) ++ r := by rw [hnodes, List.append_assoc, List.singleton_append]
    refine (publishLoop_pass hnodes (hoff x List.mem_cons_self) (r.length + 1)).trans ?_
    exact ih hrest fun y hy => hoff y (List.mem_cons_of_mem x hy)

/-- **The loop does not get past a descriptor that is online.** -/
theorem publishLoop_online (hnodes : push.nodes = l ++ r) (hon : ∃ x ∈ r, x.key ∈ onlineFds) (fuel : ℕ) :
    ∃ f, publishLoop onlineFds fuel (r.head?.map Node.addr) need push = .error f := by
  induction r generalizing l fuel with
  | nil =>
    obtain ⟨x, hx, -⟩ := hon
    cases hx
  | cons x r ih =>
    cases fuel with
    | zero => exact ⟨.diverged, rfl⟩
    | succ fuel =>
      by_cases hx : x.key ∈ onlineFds
      · exact ⟨.outOfBounds, publishLoop_match hnodes hx fuel⟩
      · obtain ⟨y, hy, hyon⟩ := hon
        rcases List.mem_cons.1 hy with rfl | hyr
        · exact absurd hyon hx
        · have hrest : push.nodes = (l ++ [x]) ++ r := by
            rw [hnodes, List.append_assoc, List.singleton_append]
          obtain ⟨f, hf⟩ := ih hrest ⟨y, hyr, hyon⟩ fuel
          exact ⟨f, (publishLoop_pass hnodes hx fuel).trans hf⟩

/-- **`make_publish_map` ends with what it is for exactly when no descriptor that waits for
something is online.** -/
theorem make_publish_map_iff (onlineFds : Finset Fd) (push : PushList) :
    (∃ fuel need push', makePublishMap fuel onlineFds (fun _ => none) push = .ok (need, push') ∧
        Published onlineFds push need push') ↔
      ∀ fd ∈ onlineFds, push.find? fd = none := by
  have hfirst : push.nodes = [] ++ push.nodes := rfl
  constructor
  · rintro ⟨fuel, need, push', hok, -⟩ fd hfd
    cases hfind : push.find? fd with
    | none => rfl
    | some mods =>
      obtain ⟨x, hx, rfl, -⟩ := NodeMap.find?_eq_some.1 hfind
      obtain ⟨f, hf⟩ := publishLoop_online hfirst ⟨x, hx, hfd⟩ fuel
      have hbad : makePublishMap fuel onlineFds (fun _ => none) push = .error f := hf
      rw [hok] at hbad
      cases hbad
  · intro hnone
    have hoff : ∀ x ∈ push.nodes, x.key ∉ onlineFds := by
      intro x hx hon
      have hfind : push.find? x.key = some x.value := NodeMap.find?_eq_some.2 ⟨x, hx, rfl, rfl⟩
      rw [hnone x.key hon] at hfind
      cases hfind
    refine ⟨push.nodes.length + 1, _, _, publishLoop_offline hfirst hoff, fun fd => ?_, fun fd => ?_⟩
    · by_cases hfd : fd ∈ onlineFds
      · rw [if_pos hfd, hnone fd hfd]
      · rw [if_neg hfd]
    · by_cases hfd : fd ∈ onlineFds
      · rw [if_pos hfd, hnone fd hfd]
      · rw [if_neg hfd]

/-- One entry, and its descriptor is online. -/
theorem make_publish_map_one_online :
    let push : PushList :=
      { nodes := [⟨0, 7, {1}⟩], resize := fun l => l, addrs := List.nodup_singleton 0,
        keys := List.nodup_singleton 7, perm := fun l => List.Perm.refl l }
    (∀ fuel, makePublishMap (fuel + 1) {7} (fun _ => none) push = .error .outOfBounds) ∧
      ¬ ∃ fuel need push', makePublishMap fuel {7} (fun _ => none) push = .ok (need, push') ∧
        Published {7} push need push' := by
  intro push
  have hfault : ∀ fuel, makePublishMap (fuel + 1) {7} (fun _ => none) push = .error .outOfBounds :=
    fun _ => rfl
  refine ⟨hfault, ?_⟩
  rintro ⟨fuel, need, push', hok, -⟩
  cases fuel with
  | zero => cases hok
  | succ fuel =>
    rw [hfault] at hok
    cases hok

end SubscribeList

end LbRpc
