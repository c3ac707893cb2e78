import LbRpc.Agent.AgentUdpServer
import LbRpc.Api.ApiClient

/-!
# Which shard a modid/cmdid belongs to

The API picks a socket, the agent's server picks a `RouteLB`, and the DNS client picks
one for the response, each from the same expression over two signed ints.

* `shard_mem_iff`: the index is in range exactly where the sum is not negative or is
  divisible by three.
* `serverIndex_of_bound`: the `RouteLB` behind the port that a socket of the API reaches.
* `shards_agree_iff`: when a request and the response of the DNS service meet.
-/

namespace LbRpc

open APIClient

/-- The remainder has the sign of the sum. -/
theorem shard_toInt (modid cmdid : Int32) : (shard modid cmdid).toInt =
    if 0 ≤ (modid + cmdid).toInt then (modid + cmdid).toInt % 3 else -(-(modid + cmdid).toInt % 3) := by
  have h3 : (3 : Int32).toInt = 3 := rfl
  rw [shard, Int32.toInt_mod, h3]
  split
  · rename_i h
    exact Int.tmod_eq_emod_of_nonneg h
  · rename_i h
    have hneg : 0 ≤ -(modid + cmdid).toInt := by omega
    rw [← Int.tmod_eq_emod_of_nonneg hneg, Int.neg_tmod, neg_neg]

theorem index_toInt (i : Fin 3) : (Int32.ofNat i).toInt = i := by
  revert i
  decide

/-- **The index is one of 0, 1, 2 exactly where the sum is not negative or divisible by
three.** -/
theorem shard_mem_iff (modid cmdid : Int32) :
    (∃ i : Fin 3, shard modid cmdid = Int32.ofNat i) ↔ 0 ≤ modid + cmdid ∨ shard modid cmdid = 0 := by
  have hr := shard_toInt modid cmdid
  have h0 : (0 : Int32).toInt = 0 := rfl
  rw [Int32.le_iff_toInt_le, h0]
  constructor
  · rintro ⟨i, h⟩
    have hpos : (shard modid cmdid).toInt = i := by rw [h, index_toInt]
    by_contra hneg
    rw [not_or, ← Int32.toInt_inj, h0] at hneg
    rw [if_neg hneg.1] at hr
    omega
  · intro h
    have hlt : 0 ≤ (shard modid cmdid).toInt ∧ (shard modid cmdid).toInt < 3 := by
      rcases h with h | h
      · rw [hr, if_pos h]
        omega
      · rw [h]
        decide
    obtain ⟨n, hn⟩ := Int.eq_ofNat_of_zero_le hlt.1
    refine ⟨⟨n, by omega⟩, Int32.toInt_inj.1 ?_⟩
    rw [index_toInt, hn]

theorem sockfd_ofNat (i : Fin 3) : sockfd (Int32.ofNat i) = some i := by
  revert i
  decide

/-- A server that a socket of the API reaches serves from this `RouteLB`. -/
theorem serverIndex_of_bound {startPort : Int32} {i j : Fin 3} (h : boundPort startPort j = apiPort i) :
    serverIndex startPort j = 8888 + Int32.ofNat i - startPort := by
  have hport : agentPort startPort j = (apiPort i).toInt16 := by
    rw [← h]
    rfl
  have hi : ∀ i : Fin 3, (apiPort i).toInt16.toInt32 = 8888 + Int32.ofNat i := by decide
  rw [serverIndex, hport, hi]

/-- The port of the API meets the port of the servers at the same index only for 8888. -/
theorem port_meets_iff {startPort k : Int32} : 8888 + k - startPort = k ↔ startPort = 8888 := by
  constructor
  · intro h
    grind
  · rintro rfl
    grind

/-- **When the request and the response meet.** The four indices are the same; they are in
range, and a server that the request reaches serves it from the `RouteLB` that takes the
response, exactly under this condition. -/
theorem shards_agree_iff (startPort modid cmdid : Int32) :
    (getHostIndex modid cmdid = dealRecvRouteIndex modid cmdid ∧
      getRouteIndex modid cmdid = dealRecvRouteIndex modid cmdid ∧
      reportIndex modid cmdid = dealRecvRouteIndex modid cmdid ∧
      ∃ i : Fin 3, dealRecvRouteIndex modid cmdid = Int32.ofNat i ∧
        sockfd (getHostIndex modid cmdid) = some i ∧
        ∀ j, boundPort startPort j = apiPort i → serverIndex startPort j = Int32.ofNat i) ↔
    (0 ≤ modid + cmdid ∨ (modid + cmdid) % 3 = 0) ∧
      (startPort = 8888 ∨
        ∀ i j : Fin 3, (modid + cmdid) % 3 = Int32.ofNat i → boundPort startPort j ≠ apiPort i) := by
  constructor
  · rintro ⟨-, -, -, i, hi, -, hserve⟩
    refine ⟨(shard_mem_iff modid cmdid).1 ⟨i, hi⟩, ?_⟩
    by_contra h
    rw [not_or] at h
    obtain ⟨hport, hbound⟩ := h
    simp only [ne_eq, not_forall, not_not, exists_prop] at hbound
    obtain ⟨i', j, hi', hj⟩ := hbound
    have hii : i' = i := by
      have h : Int32.ofNat i' = Int32.ofNat i := hi'.symm.trans hi
      have h := congrArg Int32.toInt h
      rw [index_toInt, index_toInt] at h
      omega
    subst hii
    have hs := hserve j hj
    rw [serverIndex_of_bound hj] at hs
    exact hport (port_meets_iff.1 hs)
  · rintro ⟨hrange, hport⟩
    obtain ⟨i, hi⟩ := (shard_mem_iff modid cmdid).2 hrange
    refine ⟨rfl, rfl, rfl, i, hi, ?_, ?_⟩
    · rw [getHostIndex, hi, sockfd_ofNat]
    · intro j hj
      rcases hport with h | h
      · rw [serverIndex_of_bound hj]
        exact port_meets_iff.2 h
      · exact absurd hj (h i j hi)

/-- The pair (-1, 0) is given the index -1. -/
theorem shards_agree_fails : ¬∀ modid cmdid : Int32,
    getHostIndex modid cmdid = dealRecvRouteIndex modid cmdid ∧
      getRouteIndex modid cmdid = dealRecvRouteIndex modid cmdid ∧
      reportIndex modid cmdid = dealRecvRouteIndex modid cmdid ∧
      ∃ i : Fin 3, dealRecvRouteIndex modid cmdid = Int32.ofNat i ∧
        sockfd (getHostIndex modid cmdid) = some i ∧
        ∀ j, boundPort 8888 j = apiPort i → serverIndex 8888 j = Int32.ofNat i := by
  intro h
  obtain ⟨-, -, -, i, hi, -⟩ := h (-1) 0
  revert hi i
  decide

end LbRpc
