import LbRpc.Proof.LoadBalanceStep

/-!
# How long an overloaded host waits for a probe

* `probed_iff`: a window of `probe_num + 1` picks, with an overloaded host at each of
  them and any other calls in between, serves the overload list **exactly when**
  `access_cnt_` is not negative where the window starts. It is never negative when the
  memory under the constructor held no negative number and no pick counted past the
  largest `int`.
-/

namespace LbRpc

namespace LoadBalance

variable {E : Env} {lb lb' : LoadBalance}

/-- Is the call a pick? -/
def Op.isPick : Op → Bool
  | .pickOneHost => true
  | _ => false

theorem Op.eq_pick {op : Op} (h : op.isPick = true) : op = .pickOneHost := by
  rcases op with _ | _ | _ | _
  · cases h
  · cases h
  · cases h
  · rfl

/-- The number of picks among the calls. -/
def picks (ops : List Op) : ℕ := ops.countP Op.isPick

theorem picks_other {op : Op} (ops : List Op) (h : op.isPick = false) : picks (op :: ops) = picks ops := by
  unfold picks
  rw [List.countP_cons, h]
  rfl

theorem picks_pick (ops : List Op) : picks (.pickOneHost :: ops) = picks ops + 1 := by
  unfold picks
  rw [List.countP_cons]
  rfl

/-- Some pick of the window serves a host of the overload list. -/
def Serves (E : Env) (lb : LoadBalance) (win : List Op) : Prop :=
  ∃ pre t u p, pre ++ [.pickOneHost] <+: win ∧ Runs.run (step E) lb pre = .ok t ∧
    t.pickOneHost E = .ok (u, p) ∧ p.queue = some .overload

/-- A pick finds the overload list not empty. -/
def OverloadAtPick (_ : List Op) (lb : LoadBalance) (op : Op) : Prop :=
  op = .pickOneHost → lb.overloadList ≠ []

/-- A pick that finds no overloaded host still has room to count. -/
def RoomToCount (_ : List Op) (lb : LoadBalance) (op : Op) : Prop :=
  op = .pickOneHost → lb.overloadList = [] → lb.accessCnt.toInt + 1 < 2 ^ 31

theorem toInt_add_one {c : Int32} (h : c.toInt + 1 < 2 ^ 31) : (c + 1).toInt = c.toInt + 1 := by
  have hlow := Int32.le_toInt c
  rw [Int32.toInt_add, show (1 : Int32).toInt = 1 from rfl]
  exact Int.bmod_eq_of_le (by omega) (by omega)

/-! ## The counter under one call -/

theorem insertHosts_accessCnt {junk : Addr → Junk} (gs : List Lbrss.HostInfo) :
    ∀ lb : LoadBalance, (gs.foldl (insertHost E junk) lb).accessCnt = lb.accessCnt := by
  induction gs with
  | nil => exact fun _ => rfl
  | cons g gs ih =>
    intro lb
    have hone : (insertHost E junk lb g).accessCnt = lb.accessCnt := by
      unfold insertHost
      split <;> rfl
    rw [List.foldl_cons, ih, hone]

/-- Only picks touch the counter. -/
theorem step_accessCnt {op : Op} (hop : op.isPick = false) (h : step E lb op = .ok lb') :
    lb'.accessCnt = lb.accessCnt := by
  rcases op with ⟨now, junk, rsp⟩ | ⟨now, ts, ip, port, rc⟩ | _ | _
  · obtain ⟨-, t, ht, rfl⟩ := update_cases h
    have hdel : t.accessCnt = _ := (deleteHosts_frame ht).2.1
    exact hdel.trans (insertHosts_accessCnt rsp.host lb)
  · obtain ⟨v, hrep⟩ := step_report h
    rcases report_cases hrep with ⟨-, h1, -⟩ | ⟨b, w, -, -, h1, -⟩
    · rw [h1]
    · rw [h1, requeue_accessCnt]
  · cases h; rfl
  · cases hop

/-- A pick that finds an overloaded host serves it, or is below the threshold and counts. -/
theorem picked_overload {p : Picked} (hover : lb.overloadList ≠ []) (h : lb.pickOneHost E = .ok (lb', p)) :
    (p.queue = some .overload ∧ E.config.probeNum.toInt ≤ lb.accessCnt.toInt) ∨
      (p.queue ≠ some .overload ∧ lb.accessCnt.toInt < E.config.probeNum.toInt ∧
        lb'.accessCnt.toInt = lb.accessCnt.toInt + 1) := by
  have hcount : lb.accessCnt < E.config.probeNum →
      lb.accessCnt.toInt < E.config.probeNum.toInt ∧
        (lb.accessCnt + 1).toInt = lb.accessCnt.toInt + 1 := fun hlt => by
    have hlt' := Int32.lt_iff_toInt_lt.1 hlt
    have hmax := Int32.toInt_lt E.config.probeNum
    exact ⟨hlt', toInt_add_one (by omega)⟩
  rcases picked h with ⟨-, -, hge⟩ | ⟨-, hlt⟩ | ⟨-, -, hor⟩
  · exact Or.inl ⟨rfl, Int32.le_iff_toInt_le.1 hge⟩
  · exact Or.inr ⟨by simp, hcount hlt⟩
  · rcases hor with hor | hlt
    · exact absurd hor hover
    · exact Or.inr ⟨by simp, hcount hlt⟩

/-! ## A window -/

theorem Serves.now {p : Picked} {win : List Op} (h : lb.pickOneHost E = .ok (lb', p))
    (hq : p.queue = some .overload) : Serves E lb (.pickOneHost :: win) :=
  ⟨[], lb, lb', p, by simp, rfl, h, hq⟩

theorem Serves.later {op : Op} {win : List Op} (hs : step E lb op = .ok lb') (h : Serves E lb' win) :
    Serves E lb (op :: win) := by
  obtain ⟨pre, t, u, p, hpre, ht, hp, hq⟩ := h
  exact ⟨op :: pre, t, u, p, by simpa using hpre, Runs.run_cons_ok.2 ⟨lb', hs, ht⟩, hp, hq⟩

/-- **Enough picks serve**: the counter reaches the threshold, one pick later it is served. -/
theorem serves_of_picks : ∀ (win : List Op) (lb lb' : LoadBalance),
    Runs.run (step E) lb win = .ok lb' → Runs.Along (step E) OverloadAtPick lb win →
    1 ≤ picks win → E.config.probeNum.toInt + 1 ≤ lb.accessCnt.toInt + picks win → Serves E lb win := by
  intro win
  induction win with
  | nil => intro lb lb' _ _ h1; simp [picks] at h1
  | cons op win ih =>
    intro lb lb' hrun hover h1 hcnt
    obtain ⟨t, hs, ht⟩ := Runs.run_cons_ok.1 hrun
    obtain ⟨hnow, hlater⟩ := Runs.along_cons.1 hover
    rcases hop : op.isPick with _ | _
    · -- the counter and the number of picks to come stay the same
      have hc := step_accessCnt hop hs
      rw [picks_other win hop] at h1 hcnt
      exact .later hs (ih t lb' ht (hlater t hs) h1 (by rw [hc]; exact hcnt))
    · obtain rfl := Op.eq_pick hop
      obtain ⟨p, hp⟩ := step_pick hs
      -- the counter goes up by one as the picks to come go down by one
      rcases picked_overload (hnow rfl) hp with ⟨hq, -⟩ | ⟨-, hlt, hc⟩
      · exact .now hp hq
      · have hn := picks_pick win
        exact .later hs (ih t lb' ht (hlater t hs) (by omega) (by omega))

/-- **Too few picks do not serve**: the counter stays below the threshold. -/
theorem not_serves_of_picks : ∀ (win : List Op) (lb : LoadBalance),
    Runs.Along (step E) OverloadAtPick lb win →
    lb.accessCnt.toInt + picks win ≤ E.config.probeNum.toInt → ¬ Serves E lb win := by
  intro win
  induction win with
  | nil =>
    rintro lb _ _ ⟨pre, t, u, p, hpre, -⟩
    simp at hpre
  | cons op win ih =>
    rintro lb hover hcnt ⟨pre, t, u, p, hpre, ht, hp, hq⟩
    obtain ⟨hnow, hlater⟩ := Runs.along_cons.1 hover
    rcases pre with _ | ⟨e, pre⟩
    · -- the first call is the pick that serves, so the counter had reached the threshold
      obtain ⟨rfl, -⟩ := List.cons_prefix_cons.1 hpre
      rw [Runs.run_nil] at ht
      cases ht
      have hn := picks_pick win
      rcases picked_overload (hnow rfl) hp with ⟨-, hge⟩ | ⟨hne, -, -⟩
      · omega
      · exact hne hq
    · obtain ⟨rfl, hpre'⟩ := List.cons_prefix_cons.1 hpre
      obtain ⟨v, hs, hv⟩ := Runs.run_cons_ok.1 ht
      refine ih v (hlater v hs) ?_ ⟨pre, t, u, p, hpre', hv, hp, hq⟩
      rcases hop : e.isPick with _ | _
      · rw [step_accessCnt hop hs]
        rw [picks_other win hop] at hcnt
        exact hcnt
      · obtain rfl := Op.eq_pick hop
        have hn := picks_pick win
        obtain ⟨q, hpq⟩ := step_pick hs
        rcases picked_overload (hnow rfl) hpq with ⟨-, hge⟩ | ⟨-, -, hc⟩ <;> omega

/-- **The counter never gets negative** from a constructor that found no negative number,
as long as it has room to count. -/
theorem accessCnt_nonneg {ops : List Op} (h0 : 0 ≤ lb.accessCnt.toInt)
    (hroom : Runs.Along (step E) RoomToCount lb ops) (hrun : Runs.run (step E) lb ops = .ok lb') :
    0 ≤ lb'.accessCnt.toInt := by
  refine Runs.throughout_of_along (P := fun _ t => 0 ≤ t.accessCnt.toInt) h0 ?_ hroom ops
    (List.prefix_refl _) lb' hrun
  intro pre op t u ht hop hs
  rcases hpick : op.isPick with _ | _
  · rw [step_accessCnt hpick hs]; exact ht
  obtain rfl := Op.eq_pick hpick
  obtain ⟨p, hpk⟩ := step_pick hs
  by_cases hover : t.overloadList = []
  · -- without an overloaded host every pick counts, whatever the threshold is
    have hadd := toInt_add_one (hop rfl hover)
    rcases picked hpk with ⟨hl, -, -⟩ | ⟨-, -⟩ | ⟨-, -, -⟩
    · rw [hover] at hl; cases hl
    · show 0 ≤ (t.accessCnt + 1).toInt
      omega
    · show 0 ≤ (t.accessCnt + 1).toInt
      omega
  · rcases picked_overload hover hpk with ⟨hq, -⟩ | ⟨-, -, hc⟩
    · rcases picked hpk with ⟨-, -, -⟩ | ⟨-, -⟩ | ⟨-, -, -⟩
      · exact le_rfl
      · cases hq
      · cases hq
    · omega

/-- **When an overloaded host is probed in time.** Take any run from the constructor and
then a window with `probe_num + 1` picks, each with a non-empty overload list. One of
these picks serves the overload list if and only if the counter is not negative where
the window starts; and that is so when the constructor found no negative number in
memory and no pick counted past the largest `int`. -/
theorem probed_iff (E : Env) (hp : 0 ≤ E.config.probeNum) (modid cmdid accessCnt : Int32)
    (pre win : List Op) (lb lb' : LoadBalance)
    (hpre : Runs.run (step E) (new modid cmdid accessCnt) pre = .ok lb)
    (hwin : Runs.run (step E) lb win = .ok lb') (hn : (picks win : ℤ) = E.config.probeNum.toInt + 1)
    (hover : Runs.Along (step E) OverloadAtPick lb win) :
    (Serves E lb win ↔ 0 ≤ lb.accessCnt.toInt) ∧
      (0 ≤ accessCnt.toInt → Runs.Along (step E) RoomToCount (new modid cmdid accessCnt) pre →
        0 ≤ lb.accessCnt.toInt) := by
  have hp0 : 0 ≤ E.config.probeNum.toInt := Int32.le_iff_toInt_le.1 hp
  refine ⟨⟨fun hserves => ?_, fun hc => ?_⟩, fun h0 hroom => accessCnt_nonneg h0 hroom hpre⟩
  · by_contra hneg
    exact not_serves_of_picks win lb hover (by omega) hserves
  · exact serves_of_picks win lb lb' hwin hover (by omega) (by omega)

/-- Picks leave an overload list that is not empty as it is, up to its order. -/
theorem overloadAtPick_replicate : ∀ (n : ℕ) (lb : LoadBalance), lb.overloadList ≠ [] →
    Runs.Along (step E) OverloadAtPick lb (List.replicate n .pickOneHost) := by
  intro n
  induction n with
  | zero => exact fun _ _ => Runs.along_nil
  | succ n ih =>
    intro lb hover
    refine Runs.along_cons.2 ⟨fun _ => hover, fun t ht => ?_⟩
    obtain ⟨p, hp⟩ := step_pick ht
    have hperm := (picked hp).frame.2.2.2.2
    exact ih t fun h => hover (by rw [h] at hperm; exact hperm.nil_eq.symm)

/-- One host, and failures until it is overloaded. -/
def oneOverloaded : List Op :=
  .update 0 (fun _ => ⟨0, 0⟩) ⟨1, 1, [⟨1, 80⟩]⟩ :: List.replicate 12 (.report 1 1 1 80 4)

/-- What the run `oneOverloaded` leaves behind, and that the picks after it return. -/
theorem oneOverloaded_ok (accessCnt : Int32)
    (h : ((Runs.run (step Env.shipped) (new 1 1 accessCnt) oneOverloaded).toOption.map fun lb =>
      (lb.accessCnt, lb.overloadList.length,
        (Runs.run (step Env.shipped) lb (List.replicate 11 .pickOneHost)).isOk)) =
      some (accessCnt, 1, true)) :
    ∃ lb lb', Runs.run (step Env.shipped) (new 1 1 accessCnt) oneOverloaded = .ok lb ∧
      Runs.run (step Env.shipped) lb (List.replicate 11 .pickOneHost) = .ok lb' ∧
      lb.accessCnt = accessCnt ∧ lb.overloadList ≠ [] := by
  obtain ⟨lb, hrun, hlb⟩ := Runs.ok_of_toOption h
  simp only [Prod.mk.injEq] at hlb
  obtain ⟨hc, hl, hok⟩ := hlb
  rcases hwin : Runs.run (step Env.shipped) lb (List.replicate 11 .pickOneHost) with f | lb'
  · rw [hwin] at hok; cases hok
  · exact ⟨lb, lb', hrun, hwin, hc, fun hnil => by rw [hnil] at hl; cases hl⟩

/-- With the counter at zero the eleven picks of the shipped configuration serve the
overloaded host. -/
theorem probed_shipped : ∃ lb, Runs.run (step Env.shipped) (new 1 1 0) oneOverloaded = .ok lb ∧
    Serves Env.shipped lb (List.replicate 11 .pickOneHost) := by
  obtain ⟨lb, lb', hpre, hwin, hc, hover⟩ := oneOverloaded_ok 0 (by decide +kernel)
  have hiff := (probed_iff Env.shipped (by decide) 1 1 0 oneOverloaded (List.replicate 11 .pickOneHost)
    lb lb' hpre hwin (by decide) (overloadAtPick_replicate 11 lb hover)).1
  exact ⟨lb, hpre, hiff.2 (by rw [hc]; decide)⟩

/-- A constructor over memory that reads `-1`: eleven picks, and the overloaded host is
not probed. -/
theorem probed_fails :
    ¬ ∀ (pre win : List Op) (lb lb' : LoadBalance),
      Runs.run (step Env.shipped) (new 1 1 (-1)) pre = .ok lb →
      Runs.run (step Env.shipped) lb win = .ok lb' →
      (picks win : ℤ) = Env.shipped.config.probeNum.toInt + 1 →
      Runs.Along (step Env.shipped) OverloadAtPick lb win → Serves Env.shipped lb win := by
  intro h
  obtain ⟨lb, lb', hpre, hwin, hc, hover⟩ := oneOverloaded_ok (-1) (by decide +kernel)
  have hat := overloadAtPick_replicate (E := Env.shipped) 11 lb hover
  refine not_serves_of_picks (List.replicate 11 .pickOneHost) lb hat ?_
    (h oneOverloaded _ lb lb' hpre hwin (by decide) hat)
  rw [hc]
  decide

end LoadBalance

end LbRpc
