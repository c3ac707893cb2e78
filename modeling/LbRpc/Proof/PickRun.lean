import LbRpc.Base.RoundRobin
import LbRpc.Proof.Probe
import LbRpc.Proof.Updates

/-!
# Any number of picks in a row

* `picksInRow`: `pick_one_host` called `N` times.
* `Turns`: what the calls return and leave, when `k` of them serve the overload list and
  `j` the idle list. One lemma for each kind of call that comes in front.
* `picks_round_robin`: which `k` and `j` these are.
-/

namespace LbRpc

namespace LoadBalance

open RoundRobin

variable {E : Env} {lb lb' t : LoadBalance} {a : Addr} {l : List Addr} {k j n : ℕ} {ps : List Picked}

/-- `pick_one_host`, `n` times. -/
def picksInRow (E : Env) : ℕ → LoadBalance → Except Fault (List Picked × LoadBalance)
  | 0, lb => .ok ([], lb)
  | n + 1, lb =>
    match lb.pickOneHost E with
    | .error f => .error f
    | .ok (lb, p) =>
      match picksInRow E n lb with
      | .error f => .error f
      | .ok (ps, lb) => .ok (p :: ps, lb)

/-- What a pick returns that serves this host. -/
def pickedFrom (heap : Heap HostInfo) (q : Queue) (a : Addr) : Picked :=
  ⟨.succ, some q, (heap.read a).map endpoint⟩

/-- The refusal of a pick. -/
def refusal : Picked := ⟨.overload, none, none⟩

/-- **`n` picks in a row**, of which `k` serve the overload list and `j` the idle list. -/
structure Turns (lb lb' : LoadBalance) (n k j : ℕ) (ps : List Picked) : Prop where
  length : ps.length = n
  overload : ps.filter (fun p => p.queue = some .overload) =
    (served lb.overloadList k).map (pickedFrom lb.heap .overload)
  idle : ps.filter (fun p => p.queue = some .idle) =
    (served lb.idleList j).map (pickedFrom lb.heap .idle)
  refused : ps.filter (fun p => p.queue = none) = List.replicate (n - k - j) refusal
  overloadList : lb'.overloadList = lb.overloadList.rotate k
  idleList : lb'.idleList = lb.idleList.rotate j
  hostMap : lb'.hostMap = lb.hostMap
  heap : lb'.heap = lb.heap
  le : k + j ≤ n

theorem turns_none (lb : LoadBalance) : Turns lb lb 0 0 0 [] :=
  ⟨rfl, rfl, rfl, rfl, by simp, by simp, rfl, rfl, by omega⟩

/-- A pick of the overload list in front. -/
theorem Turns.overloadFirst {l : List Addr} {hi : HostInfo} (hl : lb.overloadList = a :: l)
    (hr : lb.heap.read a = some hi)
    (h : Turns { lb with accessCnt := 0, overloadList := l ++ [a] } lb' n k j ps) :
    Turns lb lb' (n + 1) (k + 1) j (⟨.succ, some .overload, some (endpoint hi)⟩ :: ps) := by
  have hfirst : pickedFrom lb.heap .overload a = ⟨.succ, some .overload, some (endpoint hi)⟩ := by
    unfold pickedFrom
    rw [hr]
    rfl
  have hle := h.le
  refine ⟨by simp [h.length], ?_, ?_, ?_, ?_, h.idleList, h.hostMap, h.heap, by omega⟩
  · rw [List.filter_cons_of_pos (by simp), h.overload, hl, served_cons, List.map_cons, hfirst]
  · rw [List.filter_cons_of_neg (by simp), h.idle]
  · rw [List.filter_cons_of_neg (by simp), h.refused]
    congr 1
    omega
  · rw [h.overloadList, hl, List.rotate_cons_succ]

/-- A pick of the idle list in front. -/
theorem Turns.idleFirst {l : List Addr} {hi : HostInfo} (hl : lb.idleList = a :: l)
    (hr : lb.heap.read a = some hi)
    (h : Turns { lb with accessCnt := lb.accessCnt + 1, idleList := l ++ [a] } lb' n k j ps) :
    Turns lb lb' (n + 1) k (j + 1) (⟨.succ, some .idle, some (endpoint hi)⟩ :: ps) := by
  have hfirst : pickedFrom lb.heap .idle a = ⟨.succ, some .idle, some (endpoint hi)⟩ := by
    unfold pickedFrom
    rw [hr]
    rfl
  have hle := h.le
  refine ⟨by simp [h.length], ?_, ?_, ?_, h.overloadList, ?_, h.hostMap, h.heap, by omega⟩
  · rw [List.filter_cons_of_neg (by simp), h.overload]
  · rw [List.filter_cons_of_pos (by simp), h.idle, hl, served_cons, List.map_cons, hfirst]
  · rw [List.filter_cons_of_neg (by simp), h.refused]
    congr 1
    omega
  · rw [h.idleList, hl, List.rotate_cons_succ]

/-- A refusal in front. -/
theorem Turns.refusedFirst (h : Turns { lb with accessCnt := lb.accessCnt + 1 } lb' n k j ps) :
    Turns lb lb' (n + 1) k j (refusal :: ps) := by
  have hle := h.le
  refine ⟨by simp [h.length], ?_, ?_, ?_, h.overloadList, h.idleList, h.hostMap, h.heap, by omega⟩
  · rw [List.filter_cons_of_neg (by simp [refusal]), h.overload]
  · rw [List.filter_cons_of_neg (by simp [refusal]), h.idle]
  · rw [List.filter_cons_of_pos (by simp [refusal]), h.refused, ← List.replicate_succ]
    congr 1
    omega

/-! ## Which list a pick serves -/

theorem pick_overload {l : List Addr} {hi : HostInfo} (hl : lb.overloadList = a :: l)
    (hr : lb.heap.read a = some hi) (hc : E.config.probeNum ≤ lb.accessCnt) :
    lb.pickOneHost E = .ok ({ lb with accessCnt := 0, overloadList := l ++ [a] },
      ⟨.succ, some .overload, some (endpoint hi)⟩) := by
  have hserve : lb.serveOverload = .ok ({ lb with accessCnt := 0, overloadList := l ++ [a] },
      ⟨.succ, some .overload, some (endpoint hi)⟩) := by
    unfold serveOverload
    rw [hl, getHostFromList_cons hr]
    rfl
  unfold pickOneHost
  by_cases hidle : lb.idleList = []
  · rw [if_pos hidle, if_pos hc, hserve]
  · rw [if_neg hidle, if_pos ⟨by simp [hl], hc⟩, hserve]

theorem pick_idle {l : List Addr} {hi : HostInfo} (hl : lb.idleList = a :: l)
    (hr : lb.heap.read a = some hi) (hc : lb.overloadList = [] ∨ ¬E.config.probeNum ≤ lb.accessCnt) :
    lb.pickOneHost E = .ok ({ lb with accessCnt := lb.accessCnt + 1, idleList := l ++ [a] },
      ⟨.succ, some .idle, some (endpoint hi)⟩) := by
  unfold pickOneHost serveIdle
  rw [if_neg (by simp [hl]), if_neg (by tauto), hl, getHostFromList_cons hr]
  rfl

theorem pick_refused (hl : lb.idleList = []) (hc : ¬E.config.probeNum ≤ lb.accessCnt) :
    lb.pickOneHost E = .ok ({ lb with accessCnt := lb.accessCnt + 1 }, refusal) := by
  unfold pickOneHost
  rw [if_pos hl, if_neg hc]
  rfl

theorem picksInRow_succ {p : Picked} (hp : lb.pickOneHost E = .ok (t, p))
    (h : picksInRow E n t = .ok (ps, lb')) : picksInRow E (n + 1) lb = .ok (p :: ps, lb') := by
  simp only [picksInRow, hp, h]

/-- The hosts of both lists are live. -/
def Live (lb : LoadBalance) : Prop := ∀ a ∈ lb.idleList ++ lb.overloadList, ∃ hi, lb.heap.read a = some hi

theorem Live.turnIdle {l : List Addr} (h : lb.Live) (hl : lb.idleList = a :: l) (c : Int32) :
    Live { lb with accessCnt := c, idleList := l ++ [a] } := by
  intro b hb
  refine h b ?_
  simp only [hl, List.mem_append, List.mem_cons, List.not_mem_nil, or_false] at hb ⊢
  tauto

theorem Live.turnOverload {l : List Addr} (h : lb.Live) (hl : lb.overloadList = a :: l) (c : Int32) :
    Live { lb with accessCnt := c, overloadList := l ++ [a] } := by
  intro b hb
  refine h b ?_
  simp only [hl, List.mem_append, List.mem_cons, List.not_mem_nil, or_false] at hb ⊢
  tauto

/-! ## A run of picks -/

/-- Without an overloaded host every pick serves the idle list. -/
theorem picks_idle : ∀ (n : ℕ) (lb : LoadBalance), lb.Live → lb.idleList ≠ [] → lb.overloadList = [] →
    ∃ ps lb', picksInRow E n lb = .ok (ps, lb') ∧ Turns lb lb' n 0 n ps := by
  intro n
  induction n with
  | zero => exact fun lb _ _ _ => ⟨[], lb, rfl, turns_none lb⟩
  | succ n ih =>
    intro lb hlive hidle hover
    obtain ⟨a, l, hl⟩ := List.exists_cons_of_ne_nil hidle
    obtain ⟨hi, hr⟩ := hlive a (by simp [hl])
    obtain ⟨ps, lb', hps, ht⟩ := ih _ (hlive.turnIdle hl _) (by simp) hover
    exact ⟨_, lb', picksInRow_succ (pick_idle hl hr (Or.inl hover)) hps, ht.idleFirst hl hr⟩

/-- How many of `n` picks serve the overload list, with the counter at `c`. -/
def probes (p c n : ℕ) : ℕ := (n + c) / (p + 1)

theorem probes_zero {p c : ℕ} (h : c ≤ p) : probes p c 0 = 0 := by
  unfold probes
  exact Nat.div_eq_of_lt (by omega)

/-- At the threshold the next pick is a probe, and the counter starts again. -/
theorem probes_reset (p n : ℕ) : probes p p (n + 1) = probes p 0 n + 1 := by
  unfold probes
  rw [show n + 1 + p = n + 0 + (p + 1) by omega, Nat.add_div_right _ (by omega)]

theorem probes_count (p c n : ℕ) : probes p c (n + 1) = probes p (c + 1) n := by
  unfold probes
  rw [show n + 1 + c = n + (c + 1) by omega]

/-- Every probe takes a pick. -/
theorem probes_le {p c n : ℕ} (h : c ≤ p) : probes p c n ≤ n := by
  unfold probes
  have hlt : (n + c) / (p + 1) < n + 1 := by
    rw [Nat.div_lt_iff_lt_mul (by omega)]
    nlinarith
  omega

/-- **With an overloaded host** the picks count up to the threshold, probe, and start again. -/
theorem picks_overload (hp : 0 ≤ E.config.probeNum.toInt) : ∀ (n : ℕ) (lb : LoadBalance) (c : ℕ), lb.Live →
    lb.overloadList ≠ [] → lb.accessCnt.toInt = c → c ≤ E.config.probeNum.toInt.toNat →
    ∃ ps lb', picksInRow E n lb = .ok (ps, lb') ∧
      Turns lb lb' n (probes E.config.probeNum.toInt.toNat c n)
        (if lb.idleList = [] then 0 else n - probes E.config.probeNum.toInt.toNat c n) ps := by
  intro n
  induction n with
  | zero =>
    intro lb c _ _ _ hle
    rw [probes_zero hle]
    exact ⟨[], lb, rfl, by simpa using turns_none lb⟩
  | succ n ih =>
    intro lb c hlive hover hc hle
    by_cases hcp : E.config.probeNum ≤ lb.accessCnt
    · -- the counter is at the threshold: the front of the overload list is served
      have hcp' : E.config.probeNum.toInt ≤ lb.accessCnt.toInt := Int32.le_iff_toInt_le.1 hcp
      have hceq : c = E.config.probeNum.toInt.toNat := by omega
      obtain ⟨a, l, hl⟩ := List.exists_cons_of_ne_nil hover
      obtain ⟨hi, hr⟩ := hlive a (by simp [hl])
      obtain ⟨ps, lb', hps, ht⟩ := ih _ 0 (hlive.turnOverload hl 0) (by simp) rfl (Nat.zero_le _)
      refine ⟨_, lb', picksInRow_succ (pick_overload hl hr hcp) hps, ?_⟩
      rw [hceq, probes_reset, Nat.add_sub_add_right]
      exact ht.overloadFirst hl hr
    · have hlt : lb.accessCnt.toInt < E.config.probeNum.toInt :=
        Int32.lt_iff_toInt_lt.1 (by simpa using hcp)
      have hmax := Int32.toInt_lt E.config.probeNum
      have hadd : (lb.accessCnt + 1).toInt = ((c + 1 : ℕ) : ℤ) := by
        rw [toInt_add_one (by omega), hc]
        push_cast
        rfl
      have hle' : c + 1 ≤ E.config.probeNum.toInt.toNat := by omega
      rw [probes_count]
      by_cases hidle : lb.idleList = []
      · obtain ⟨ps, lb', hps, ht⟩ := ih { lb with accessCnt := lb.accessCnt + 1 } (c + 1) hlive hover hadd hle'
        refine ⟨_, lb', picksInRow_succ (pick_refused hidle hcp) hps, ?_⟩
        rw [if_pos hidle] at ht ⊢
        exact ht.refusedFirst
      · obtain ⟨a, l, hl⟩ := List.exists_cons_of_ne_nil hidle
        obtain ⟨hi, hr⟩ := hlive a (by simp [hl])
        obtain ⟨ps, lb', hps, ht⟩ := ih _ (c + 1) (hlive.turnIdle hl _) hover hadd hle'
        refine ⟨_, lb', picksInRow_succ (pick_idle hl hr (Or.inr hcp)) hps, ?_⟩
        have hk := probes_le (n := n) hle'
        rw [if_neg (by simp)] at ht
        rw [if_neg hidle, Nat.sub_add_comm hk]
        exact ht.idleFirst hl hr

/-- No entry of a list is served two turns ahead of another one, and no host that is listed
once two turns ahead of another one. -/
def SharedOut (l : List Addr) (k : ℕ) : Prop :=
  (∀ x y, x < l.length → y < l.length → turns l.length k x ≤ turns l.length k y + 1) ∧
    (l.Nodup → ∀ a ∈ l, ∀ b ∈ l, (served l k).count a ≤ (served l k).count b + 1)

theorem sharedOut (l : List Addr) (k : ℕ) : SharedOut l k :=
  ⟨fun _ _ hx hy => turns_le hx hy k, fun hl _ ha _ hb => count_served_le hl ha hb k⟩

/-- **Picks in a row.** With the counter `c` between 0 and `probe_num`, `N` picks serve the
overload list `(N + c) / (probe_num + 1)` times if it has a host. The others serve the idle
list, or are refused if that is empty. Both lists are served round robin. -/
theorem picks_round_robin (E : Env) (lb : LoadBalance) (c N : ℕ) (hp : 0 ≤ E.config.probeNum.toInt)
    (hc : lb.accessCnt.toInt = c) (hle : c ≤ E.config.probeNum.toInt.toNat)
    (hne : lb.idleList ≠ [] ∨ lb.overloadList ≠ []) (hlive : lb.Live) :
    ∃ ps lb' k j, picksInRow E N lb = .ok (ps, lb') ∧ Turns lb lb' N k j ps ∧
      k = (if lb.overloadList = [] then 0 else (N + c) / (E.config.probeNum.toInt.toNat + 1)) ∧
      j = (if lb.idleList = [] then 0 else N - k) ∧
      SharedOut lb.overloadList k ∧ SharedOut lb.idleList j := by
  by_cases hover : lb.overloadList = []
  · have hidle : lb.idleList ≠ [] := by tauto
    obtain ⟨ps, lb', hps, ht⟩ := picks_idle (E := E) N lb hlive hidle hover
    exact ⟨ps, lb', 0, N, hps, ht, by rw [if_pos hover], by rw [if_neg hidle, Nat.sub_zero],
      sharedOut _ _, sharedOut _ _⟩
  · obtain ⟨ps, lb', hps, ht⟩ := picks_overload hp N lb c hlive hover hc hle
    exact ⟨ps, lb', _, _, hps, ht, by rw [if_neg hover]; rfl, rfl, sharedOut _ _, sharedOut _ _⟩

/-- Two idle hosts, and one that is overloaded. -/
def twoIdle : LoadBalance :=
  { oneOfTwo with
    hostMap := oneOfTwo.hostMap.insert (key 3 80) 2
    idleList := [0, 2]
    heap := oneOfTwo.heap.alloc (HostInfo.new 3 80 100 ⟨0, 0⟩) }

/-- 25 picks of the shipped configuration: two of them probe, and the other 23 leave the two idle
hosts in the other order. -/
theorem picks_round_robin_two : ∃ ps lb', picksInRow Env.shipped 25 twoIdle = .ok (ps, lb') ∧
    Turns twoIdle lb' 25 2 23 ps ∧ SharedOut [0, 2] 23 ∧ lb'.idleList = [2, 0] := by
  have hlive : twoIdle.Live := by
    intro a ha
    have hcases : a = 0 ∨ a = 2 ∨ a = 1 := by simpa [twoIdle, oneOfTwo] using ha
    rcases hcases with rfl | rfl | rfl
    · exact ⟨_, rfl⟩
    · exact ⟨_, rfl⟩
    · exact ⟨_, rfl⟩
  obtain ⟨ps, lb', k, j, hps, ht, hk, hj, -, hshared⟩ := picks_round_robin Env.shipped twoIdle 0 25
    (by decide) rfl (Nat.zero_le _) (Or.inl (by decide)) hlive
  have hk2 : k = 2 := hk.trans (by decide)
  subst hk2
  have hj23 : j = 23 := hj.trans (by decide)
  subst hj23
  exact ⟨ps, lb', hps, ht, hshared, ht.idleList⟩

end LoadBalance

end LbRpc
