import LbRpc.Proof.Counters
import LbRpc.Proof.HostRun
import LbRpc.Proof.ReportKey

/-!
# A run of failures overloads an idle host

`con_err` counts the failures in a row, and `set_idle` clears it, as the end of each statistics
window does.

* `report_overloads_iff`: when a failure overloads an idle host.
* `streak_run`: how many failures `con_err` still counts after a row of them.
* `streak_overloads`: `con_err_limit` failures in a row overload a host that is idle up to
  then, unless one before the last ended a window.
-/

namespace LbRpc

namespace HostInfo

variable {E : Env} {hi : HostInfo}

/-- The statistics window of an idle host ends with a report at `now`. -/
def WindowEnds (E : Env) (hi : HostInfo) (now : ℤ) : Prop := E.config.idleTimeout ≤ elapsed now hi.idleTs

/-- **When a failure overloads an idle host**: by its error rate, by its failures in a row, or at
the end of a window. -/
theorem report_overloads_iff (now ts : ℤ) {rc : Int32} (hidle : hi.overload = false)
    (hrc : rc ≠ RetCode.succ.toInt32) : (hi.report E now ts rc).1.overload = true ↔
      (hi.count rc).reachesOverload E = true ∨
        WindowEnds E hi now ∧ (hi.count rc).checkWindow E = true := by
  have hrep := hi.reported E now ts rc
  unfold WindowEnds
  generalize (hi.report E now ts rc).1 = hi' at hrep ⊢
  generalize (hi.report E now ts rc).2 = v at hrep
  cases hrep with
  | toOverload _ _ hreach => exact ⟨fun _ => Or.inl hreach, fun _ => rfl⟩
  | toIdle ho _ _ => rw [hidle] at ho; cases ho
  | windowOverload _ _ hend hwin => exact ⟨fun _ => Or.inr ⟨hend, hwin⟩, fun _ => rfl⟩
  | windowReset _ hreach _ hwin =>
    have hreach := hreach hrc
    constructor
    · intro h
      cases h
    · rintro (h | ⟨-, h⟩)
      · rw [hreach] at h
        cases h
      · rw [hwin] at h
        cases h
  | timeoutIdle ho _ _ => rw [hidle] at ho; cases ho
  | stayIdle _ hreach hopen =>
    have hreach := hreach hrc
    rw [count_overload, hidle]
    constructor
    · intro h
      cases h
    · rintro (h | ⟨h, -⟩)
      · rw [hreach] at h
        cases h
      · omega
  | stayOverload ho _ _ => rw [hidle] at ho; cases ho

theorem count_conErr {rc : Int32} (hrc : rc ≠ RetCode.succ.toInt32) :
    (hi.count rc).conErr = hi.conErr + 1 := by
  unfold count
  rw [if_neg hrc]

/-- A host below its limit of failures in a row. -/
def BelowLimit (E : Env) (hi : HostInfo) : Prop :=
  hi.overload = false → (hi.conErr.toNat : ℤ) < E.config.conErrLimit.toInt

/-- The failures in a row do not wrap below the limit. -/
theorem BelowLimit.count (h : BelowLimit E hi) (hidle : hi.overload = false) {rc : Int32}
    (hrc : rc ≠ RetCode.succ.toInt32) : (hi.count rc).conErr.toNat = hi.conErr.toNat + 1 := by
  have hlt := h hidle
  have hb := int32_bounds E.config.conErrLimit
  rw [count_conErr hrc, toNat_add_one (by omega)]

/-- The limit is reached exactly where the number of failures in a row says so. -/
theorem limit_le_iff {c : UInt32} {limit : Int32} (hl : 1 ≤ limit) :
    limit.toUInt32 ≤ c ↔ limit.toInt ≤ c.toNat := by
  have hlimit := toNat_limit hl
  rw [UInt32.le_iff_toNat_le]
  omega

/-- A report that leaves the host idle leaves it below its limit. -/
theorem belowLimit_report (hl : 1 ≤ E.config.conErrLimit) (now ts : ℤ) (rc : Int32) :
    BelowLimit E (hi.report E now ts rc).1 := by
  have hpos := toInt_pos hl
  have hzero : (0 : UInt32).toNat = 0 := rfl
  have hrep := hi.reported E now ts rc
  generalize (hi.report E now ts rc).1 = hi' at hrep ⊢
  generalize (hi.report E now ts rc).2 = v at hrep
  intro hidle'
  cases hrep with
  | toOverload _ _ _ => cases hidle'
  | toIdle _ _ _ => exact hpos
  | windowOverload _ _ _ _ => cases hidle'
  | windowReset _ _ _ _ => exact hpos
  | timeoutIdle _ _ _ => exact hpos
  | stayIdle ho hreach _ =>
    by_cases hrc : rc = RetCode.succ.toInt32
    · unfold HostInfo.count
      rw [if_pos hrc]
      exact hpos
    · have hnot := hreach hrc
      unfold reachesOverload at hnot
      rw [Bool.or_eq_false_iff] at hnot
      exact lt_of_not_reached hl hnot.2
  | stayOverload ho _ _ => rw [count_overload, ho] at hidle'; cases hidle'

theorem belowLimit_new (hl : 1 ≤ E.config.conErrLimit) (ip : UInt32) (port : Int32) (vsucc : UInt32)
    (junk : Junk) : BelowLimit E (new ip port vsucc junk) := fun _ => toInt_pos hl

/-- A failure that leaves the host idle counts, or ends the window and is forgotten. -/
theorem report_conErr (h : BelowLimit E hi) (hidle : hi.overload = false) {now ts : ℤ} {rc : Int32}
    (hrc : rc ≠ RetCode.succ.toInt32) (hidle' : (hi.report E now ts rc).1.overload = false) :
    (WindowEnds E hi now ∧ (hi.report E now ts rc).1.conErr.toNat = 0) ∨
      (¬ WindowEnds E hi now ∧ (hi.report E now ts rc).1.conErr.toNat = hi.conErr.toNat + 1) := by
  have hcount := h.count hidle hrc
  have hrep := hi.reported E now ts rc
  unfold WindowEnds
  generalize (hi.report E now ts rc).1 = hi' at hrep hidle' ⊢
  generalize (hi.report E now ts rc).2 = v at hrep
  cases hrep with
  | toOverload _ _ _ => cases hidle'
  | toIdle ho _ _ => rw [hidle] at ho; cases ho
  | windowOverload _ _ _ _ => cases hidle'
  | windowReset _ _ hend _ => exact Or.inl ⟨hend, rfl⟩
  | timeoutIdle ho _ _ => rw [hidle] at ho; cases ho
  | stayIdle _ _ hopen => exact Or.inr ⟨by omega, hcount⟩
  | stayOverload ho _ _ => rw [hidle] at ho; cases ho

/-- Each report meets an idle host. -/
def MetIdle (E : Env) (hi : HostInfo) (rs : List Report) : Prop :=
  Runs.Along (step E) (fun _ t _ => t.overload = false) hi rs

/-- No report ends a window. -/
def NoWindowEnds (E : Env) (hi : HostInfo) (rs : List Report) : Prop :=
  Runs.Along (step E) (fun _ t r => ¬ WindowEnds E t r.currentTime) hi rs

/-- **A row of failures** is what `con_err` counts on top, as long as no window ends; else it
counts fewer than there were. The induction is on the row, from its first report. -/
theorem streak_run (hl : 1 ≤ E.config.conErrLimit) (last : Report) : ∀ (rs : List Report) (hi hi' : HostInfo),
    BelowLimit E hi → (∀ r ∈ rs, r.retcode ≠ RetCode.succ.toInt32) → MetIdle E hi (rs ++ [last]) →
    Runs.run (step E) hi rs = .ok hi' →
    (NoWindowEnds E hi rs ∧ hi'.conErr.toNat = hi.conErr.toNat + rs.length) ∨
      (¬ NoWindowEnds E hi rs ∧ hi'.conErr.toNat < rs.length) := by
  intro rs
  induction rs with
  | nil =>
    intro hi hi' _ _ _ hrun
    rw [Runs.run_nil] at hrun
    cases hrun
    exact Or.inl ⟨Runs.along_nil, rfl⟩
  | cons r rs ih =>
    intro hi hi' hb hfail hmet hrun
    obtain ⟨t, ht, hrun⟩ := Runs.run_cons_ok.1 hrun
    rw [List.cons_append] at hmet
    obtain ⟨hidle, hmet⟩ := (Runs.along_cons_ok ht).1 hmet
    have hwin : NoWindowEnds E hi (r :: rs) ↔ ¬ WindowEnds E hi r.currentTime ∧ NoWindowEnds E t rs :=
      Runs.along_cons_ok ht
    -- the next report, which is the last one or one of the row, meets an idle host
    have hidle' : t.overload = false := by
      obtain ⟨e, es, hes⟩ := List.exists_cons_of_ne_nil (by simp : rs ++ [last] ≠ [])
      rw [hes] at hmet
      exact (Runs.along_cons.1 hmet).1
    cases ht
    have hone := report_conErr hb hidle (hfail r List.mem_cons_self) hidle'
    have hrest := ih _ hi' (belowLimit_report hl _ _ _) (fun x hx => hfail x (List.mem_cons_of_mem r hx))
      hmet hrun
    rw [hwin, List.length_cons]
    rcases hone with ⟨hend, hc⟩ | ⟨hend, hc⟩
    · -- what was counted before is gone
      refine Or.inr ⟨fun h => h.1 hend, ?_⟩
      rcases hrest with ⟨-, hc'⟩ | ⟨-, hc'⟩
      · omega
      · omega
    · rcases hrest with ⟨hq, hc'⟩ | ⟨hq, hc'⟩
      · exact Or.inl ⟨⟨hend, hq⟩, by omega⟩
      · exact Or.inr ⟨fun h => hq h.2, by omega⟩

/-- The error rate of an idle host after one more failure is above its limit. -/
def RateReached (E : Env) (hi : HostInfo) (rc : Int32) : Prop :=
  rateAbove E (hi.count rc).verr ((hi.count rc).vsucc + (hi.count rc).verr) E.config.errRate = true

/-- The window ends with a failure, and most of what it saw were failures. -/
def WindowReached (E : Env) (hi : HostInfo) (r : Report) : Prop :=
  WindowEnds E hi r.currentTime ∧ (hi.count r.retcode).checkWindow E = true

/-- When the condition on an idle host is met, in numbers. -/
theorem BelowLimit.reaches_iff (hl : 1 ≤ E.config.conErrLimit) (h : BelowLimit E hi)
    (hidle : hi.overload = false) {rc : Int32} (hrc : rc ≠ RetCode.succ.toInt32) :
    (hi.count rc).reachesOverload E = true ↔
      RateReached E hi rc ∨ E.config.conErrLimit.toInt ≤ hi.conErr.toNat + 1 := by
  have hcount := h.count hidle hrc
  unfold reachesOverload RateReached
  rw [Bool.or_eq_true, decide_eq_true_eq, limit_le_iff hl, hcount]
  push_cast
  rfl

/-- **The row with its last report**: `con_err_limit` failures that meet an idle host overload it
if no window ends before the last, else exactly by the two rates. -/
theorem streak_host (hl : 1 ≤ E.config.conErrLimit) {rs : List Report} {last : Report} {hi hi' hi'' : HostInfo}
    (hb : BelowLimit E hi) (hlen : (rs.length : ℤ) + 1 = E.config.conErrLimit.toInt)
    (hfail : ∀ r ∈ rs ++ [last], r.retcode ≠ RetCode.succ.toInt32) (hmet : MetIdle E hi (rs ++ [last]))
    (hrun : Runs.run (step E) hi rs = .ok hi') (hlast : step E hi' last = .ok hi'') :
    (NoWindowEnds E hi rs → hi''.overload = true) ∧
      (¬ NoWindowEnds E hi rs →
        (hi''.overload = true ↔ RateReached E hi' last.retcode ∨ WindowReached E hi' last)) := by
  have hrc : last.retcode ≠ RetCode.succ.toInt32 :=
    hfail last (List.mem_append_right rs (List.mem_singleton.2 rfl))
  have hidle : hi'.overload = false := hmet rs last (List.prefix_refl _) hi' hrun
  have hb' : BelowLimit E hi' :=
    Runs.run_inv (I := BelowLimit E) (fun t r u _ hu => by cases hu; exact belowLimit_report hl _ _ _) hb hrun
  have hcases := streak_run hl last rs hi hi' hb (fun r hr => hfail r (List.mem_append_left _ hr)) hmet hrun
  cases hlast
  have hover := report_overloads_iff (E := E) last.currentTime last.ts hidle hrc
  rw [hb'.reaches_iff hl hidle hrc] at hover
  constructor
  · intro hq
    rcases hcases with ⟨-, hc⟩ | ⟨hnot, -⟩
    · exact hover.2 (Or.inl (Or.inr (by omega)))
    · exact absurd hq hnot
  · intro hq
    rcases hcases with ⟨hyes, -⟩ | ⟨-, hc⟩
    · exact absurd hyes hq
    · rw [hover]
      constructor
      · rintro ((hrate | hlimit) | hwin)
        · exact Or.inl hrate
        · omega
        · exact Or.inr hwin
      · rintro (hrate | hwin)
        · exact Or.inl (Or.inl hrate)
        · exact Or.inr hwin

end HostInfo

namespace LoadBalance

variable {E : Env} {lb lb' : LoadBalance} {k : UInt64} {a : Addr} {hi : HostInfo}

/-! ## The host of one key -/

/-- The live host of a key. -/
def hostAt (lb : LoadBalance) (k : UInt64) : Option HostInfo := (lb.hostMap.lookup k).bind lb.heap.read

/-- The report that a call makes on the host of a key. -/
def Op.reportOn (k : UInt64) : Op → Option Report
  | .report currentTime ts ip port retcode =>
    if key ip port = k then some ⟨currentTime, ts, retcode⟩ else none
  | _ => none

theorem reportOn_iff {op : Op} {r : Report} : op.reportOn k = some r ↔
    ∃ ip port, op = .report r.currentTime r.ts ip port r.retcode ∧ key ip port = k := by
  constructor
  · intro h
    cases op with
    | report now ts ip port rc =>
      simp only [Op.reportOn, Option.ite_none_right_eq_some] at h
      obtain ⟨hkey, hr⟩ := h
      rw [← Option.some.inj hr]
      exact ⟨ip, port, rfl, hkey⟩
    | _ => simp [Op.reportOn] at h
  · rintro ⟨ip, port, rfl, hkey⟩
    simp only [Op.reportOn, if_pos hkey]

theorem hostAt_iff : lb.hostAt k = some hi ↔ ∃ a, lb.hostMap.lookup k = some a ∧ lb.heap.read a = some hi := by
  unfold hostAt
  exact Option.bind_eq_some_iff

/-- Every host that a run from the constructor reaches is below its limit of failures in a row. -/
theorem hostAt_belowLimit (hl : 1 ≤ E.config.conErrLimit) {modid cmdid accessCnt : Int32} {ops : List Op}
    (hrun : Runs.run (step E) (new modid cmdid accessCnt) ops = .ok lb) (h : lb.hostAt k = some hi) :
    HostInfo.BelowLimit E hi := by
  obtain ⟨a, -, hr⟩ := hostAt_iff.1 h
  obtain ⟨pre, now, junk, rsp, post, g, -, rs, -, -, hreports⟩ := host_run hrun hr
  refine Runs.run_inv (I := HostInfo.BelowLimit E) (fun t r u _ hu => ?_) ?_ hreports
  · cases hu
    exact HostInfo.belowLimit_report hl _ _ _
  · exact HostInfo.belowLimit_new hl _ _ _ _

/-- A deleted host does not come back. -/
theorem gone_step (hg : lb.heap.Gone a) {op : Op} (hs : step E lb op = .ok lb') : lb'.heap.Gone a := by
  cases op with
  | update now junk rsp =>
    obtain ⟨-, t, ht, rfl⟩ := update_cases hs
    have hins : ∀ (gs : List Lbrss.HostInfo) (u : LoadBalance), u.heap.Gone a →
        (gs.foldl (insertHost E junk) u).heap.Gone a := by
      intro gs
      induction gs with
      | nil => exact fun _ hu => hu
      | cons g gs ih =>
        intro u hu
        refine ih _ ?_
        unfold insertHost
        split
        · exact hu
        · exact hu.alloc
    refine Runs.run_inv (I := fun u => u.heap.Gone a) (fun u k w hu hw => ?_) (hins rsp.host lb hg) ht
    obtain ⟨b, hi, -, -, rfl⟩ := deleteHost_cases hw
    split
    · exact hu.free
    · exact hu.free
  | report now ts ip port rc =>
    obtain ⟨v, hrep⟩ := step_report hs
    rcases report_cases hrep with ⟨-, rfl, -⟩ | ⟨b, w, -, -, rfl, -⟩
    · exact hg
    · rw [requeue_heap]
      exact hg.modify
  | getAllHosts =>
    rw [← Except.ok.inj hs]
    exact hg
  | pickOneHost =>
    obtain ⟨p, hp⟩ := step_pick hs
    rw [(picked hp).frame.2.1]
    exact hg

/-- An entry of the map stays. -/
theorem lookup_step (hk : lb.hostMap.lookup k = some a) {op : Op} (hs : step E lb op = .ok lb') :
    lb'.hostMap.lookup k = some a := by
  cases op with
  | update now junk rsp =>
    obtain ⟨-, t, ht, rfl⟩ := update_cases hs
    obtain ⟨fresh, hins⟩ := insertHosts_fresh (E := E) junk rsp.host lb
    have hin : k ∈ lb.hostMap := AList.lookup_isSome.1 (by rw [hk]; rfl)
    show t.hostMap.lookup k = some a
    rw [(deleteHosts_frame ht).1, hins.lookup k hin, hk]
  | report now ts ip port rc =>
    obtain ⟨v, hrep⟩ := step_report hs
    rw [report_hostMap hrep]
    exact hk
  | getAllHosts =>
    rw [← Except.ok.inj hs]
    exact hk
  | pickOneHost =>
    obtain ⟨p, hp⟩ := step_pick hs
    rw [(picked hp).frame.1]
    exact hk

/-- A report on a live host is a report of that host. -/
theorem report_hostAt (h : lb.hostAt k = some hi) {op : Op} {r : Report} (hop : op.reportOn k = some r)
    (hs : step E lb op = .ok lb') :
    lb'.hostAt k = some (hi.report E r.currentTime r.ts r.retcode).1 := by
  obtain ⟨a, hk, hr⟩ := hostAt_iff.1 h
  refine hostAt_iff.2 ⟨a, lookup_step hk hs, ?_⟩
  obtain ⟨ip, port, rfl, hkey⟩ := reportOn_iff.1 hop
  obtain ⟨v, hrep⟩ := step_report hs
  rcases report_cases hrep with ⟨hnone, -, -⟩ | ⟨b, w, hb, hw, rfl, -⟩
  · rw [hkey, hk] at hnone
    cases hnone
  · rw [hkey, hk] at hb
    cases hb
    rw [hr] at hw
    cases hw
    rw [requeue_heap, Heap.read_modify_self, hr]
    rfl

/-- Every other call leaves a host alone, as long as it lives. -/
theorem other_hostAt (hf : lb.Found) {hi' : HostInfo} (h : lb.hostAt k = some hi) {op : Op}
    (hop : op.reportOn k = none) (hs : step E lb op = .ok lb') (h' : lb'.hostAt k = some hi') : hi' = hi := by
  obtain ⟨a, hk, hr⟩ := hostAt_iff.1 h
  have hr' : lb'.heap.read a = some hi' := by
    obtain ⟨b, hkb, hrb⟩ := hostAt_iff.1 h'
    rw [lookup_step hk hs] at hkb
    cases hkb
    exact hrb
  apply Option.some.inj
  cases op with
  | update now junk rsp =>
    obtain ⟨-, t, ht, rfl⟩ := update_cases hs
    obtain ⟨fresh, hins⟩ := insertHosts_fresh (E := E) junk rsp.host lb
    have hold := (deleteHosts_frame ht).2.2 a hi' hr'
    rw [hins.read a hi hr] at hold
    exact hold.symm
  | report now ts ip port rc =>
    obtain ⟨v, hrep⟩ := step_report hs
    rcases report_cases hrep with ⟨-, rfl, -⟩ | ⟨b, w, hb, hw, rfl, -⟩
    · rw [← hr', hr]
    · -- two keys do not lead to one live host
      have hab : a ≠ b := by
        rintro rfl
        rw [hr] at hw
        cases hw
        have hkey := (hf.keyed _ a hi hb hr).trans (hf.keyed k a hi hk hr).symm
        simp only [Op.reportOn, if_pos hkey] at hop
        cases hop
      rw [requeue_heap, Heap.read_modify_ne hab] at hr'
      rw [← hr', hr]
  | getAllHosts =>
    rw [← Except.ok.inj hs] at hr'
    rw [← hr', hr]
  | pickOneHost =>
    obtain ⟨p, hp⟩ := step_pick hs
    rw [(picked hp).frame.2.1] at hr'
    rw [← hr', hr]

/-- A host that lives after a run has lived since it was first there. -/
theorem hostAt_before (hf : lb.Found) (h : lb.hostAt k = some hi) {op : Op} {t : LoadBalance}
    (hs : step E lb op = .ok t) {calls : List Op} (hrun : Runs.run (step E) t calls = .ok lb') {hi' : HostInfo}
    (h' : lb'.hostAt k = some hi') : ∃ w, t.hostAt k = some w := by
  obtain ⟨a, hk, hr⟩ := hostAt_iff.1 h
  have hkt := lookup_step hk hs
  have hk' : lb'.hostMap.lookup k = some a :=
    Runs.run_inv (I := fun u => u.hostMap.lookup k = some a) (fun u op w hu hw => lookup_step hu hw) hkt hrun
  have hlt : a < t.heap.next := ((found_kept E).call hf hs).used k a hkt
  obtain ⟨b, hkb, hrb⟩ := hostAt_iff.1 h'
  rw [hk'] at hkb
  cases hkb
  rcases hdead : t.heap.read a with _ | w
  · -- deleted, it would still be
    have hgone : lb'.heap.Gone a :=
      Runs.run_inv (I := fun u => u.heap.Gone a) (fun u op w hu hw => gone_step hu hw) ⟨hlt, hdead⟩ hrun
    rw [hgone.2] at hrb
    cases hrb
  · exact ⟨w, hostAt_iff.2 ⟨a, hkt, hdead⟩⟩

/-- **A run of calls is a run of reports on each of its hosts.** What holds of each report on the
host holds along that run. -/
theorem run_hostAt {hi' : HostInfo} : ∀ (calls : List Op) (lb : LoadBalance) (hi : HostInfo), lb.Found →
    lb.hostAt k = some hi → Runs.run (step E) lb calls = .ok lb' → lb'.hostAt k = some hi' →
    Runs.run (HostInfo.step E) hi (calls.filterMap (Op.reportOn k)) = .ok hi' ∧
      ∀ G : HostInfo → Report → Prop,
        (Runs.Along (step E) (fun _ t op => ∀ r h, op.reportOn k = some r → t.hostAt k = some h → G h r) lb calls ↔
          Runs.Along (HostInfo.step E) (fun _ h r => G h r) hi (calls.filterMap (Op.reportOn k))) := by
  intro calls
  induction calls with
  | nil =>
    intro lb hi _ h hrun h'
    rw [Runs.run_nil] at hrun
    cases hrun
    rw [h] at h'
    cases h'
    exact ⟨rfl, fun G => ⟨fun _ => Runs.along_nil, fun _ => Runs.along_nil⟩⟩
  | cons op calls ih =>
    intro lb hi hf h hrun h'
    obtain ⟨t, hs, hrun⟩ := Runs.run_cons_ok.1 hrun
    have hft : t.Found := (found_kept E).call hf hs
    obtain ⟨w, hw⟩ := hostAt_before hf h hs hrun h'
    obtain ⟨hreports, halong⟩ := ih t w hft hw hrun h'
    rcases hop : op.reportOn k with _ | r
    · rw [List.filterMap_cons_none hop]
      rw [other_hostAt hf h hop hs hw] at hreports halong
      refine ⟨hreports, fun G => ?_⟩
      rw [Runs.along_cons_ok hs, ← halong G]
      constructor
      · exact fun hall => hall.2
      · refine fun hall => ⟨fun r' h'' hr' => ?_, hall⟩
        rw [hop] at hr'
        cases hr'
    · rw [List.filterMap_cons_some hop]
      have hstep : HostInfo.step E hi r = .ok w := by
        rw [report_hostAt h hop hs] at hw
        cases hw
        rfl
      refine ⟨Runs.run_cons_ok.2 ⟨w, hstep, hreports⟩, fun G => ?_⟩
      rw [Runs.along_cons_ok hs, Runs.along_cons_ok hstep]
      constructor
      · rintro ⟨hnow, hall⟩
        exact ⟨hnow r hi hop h, (halong G).1 hall⟩
      · rintro ⟨hnow, hall⟩
        refine ⟨fun r' h'' hr' hh => ?_, (halong G).2 hall⟩
        rw [hop] at hr'
        rw [h] at hh
        cases hr'
        cases hh
        exact hnow

/-! ## The streak -/

/-- **A streak** on the host of a key: the calls from the first to the last of `con_err_limit` reports
on it, all failures, each of which meets the host idle. Between them there are calls of other
kinds and reports on other hosts. -/
structure Streak (E : Env) (k : UInt64) (lb : LoadBalance) (calls : List Op) : Prop where
  first : ∃ op r, calls.head? = some op ∧ op.reportOn k = some r
  last : ∃ op r, calls.getLast? = some op ∧ op.reportOn k = some r
  length : ((calls.filterMap (Op.reportOn k)).length : ℤ) = E.config.conErrLimit.toInt
  failures : ∀ r ∈ calls.filterMap (Op.reportOn k), r.retcode ≠ RetCode.succ.toInt32
  idle : Runs.Along (step E) (fun _ t op => op.reportOn k ≠ none → ∃ hi, t.hostAt k = some hi ∧ hi.overload = false)
    lb calls

/-- None of the reports on the host ends its window. -/
def WindowStays (E : Env) (k : UInt64) (lb : LoadBalance) (calls : List Op) : Prop :=
  Runs.Along (step E) (fun _ t op => ∀ r hi, op.reportOn k = some r → t.hostAt k = some hi →
    ¬ HostInfo.WindowEnds E hi r.currentTime) lb calls

/-- The host of a key is overloaded. -/
def Overloaded (lb : LoadBalance) (k : UInt64) : Prop := ∃ hi, lb.hostAt k = some hi ∧ hi.overload = true

/-- The last of the calls takes the host over its error rate, or over that of its window at the
window's end. -/
def LastReaches (E : Env) (k : UInt64) (lb : LoadBalance) (calls : List Op) : Prop :=
  ∃ t op r hi, Runs.run (step E) lb calls.dropLast = .ok t ∧ calls.getLast? = some op ∧
    op.reportOn k = some r ∧ t.hostAt k = some hi ∧
    (HostInfo.RateReached E hi r.retcode ∨ HostInfo.WindowReached E hi r)

/-- **A streak overloads its host** if no report before the last ends the host's window. If one does,
the failures before it no longer count, and the last report overloads the host exactly by one of
the two rates. -/
theorem streak_overloads (E : Env) (hl : 1 ≤ E.config.conErrLimit) {modid cmdid accessCnt : Int32}
    {ops : List Op} (hrun : Runs.run (step E) (new modid cmdid accessCnt) ops = .ok lb) {calls : List Op}
    (hs : Streak E k lb calls) (hcalls : Runs.run (step E) lb calls = .ok lb') :
    (WindowStays E k lb calls.dropLast → lb'.Overloaded k) ∧
      (¬ WindowStays E k lb calls.dropLast → (lb'.Overloaded k ↔ LastReaches E k lb calls)) := by
  have hf : lb.Found := Runs.run_inv (I := Found) (fun t op u ht hu => (found_kept E).call ht hu)
    (found_new _ _ _) hrun
  -- the last call is a report on the host
  obtain ⟨last, r, hlast, hr⟩ := hs.last
  obtain ⟨init, rfl⟩ : ∃ init, calls = init ++ [last] := List.getLast?_eq_some_iff.1 hlast
  obtain ⟨t, hinit, hstep⟩ := Runs.run_snoc_ok.1 hcalls
  -- the host when the first report comes, when the last one comes, and after it
  obtain ⟨hi, hhi⟩ : ∃ hi, lb.hostAt k = some hi := by
    obtain ⟨op, r', hop, hr'⟩ := hs.first
    have hcons : init ++ [last] = op :: (init ++ [last]).tail := List.eq_cons_of_mem_head? hop
    have hidle := hs.idle
    rw [hcons] at hidle
    obtain ⟨hi, hhi, -⟩ := (Runs.along_cons.1 hidle).1 (by rw [hr']; simp)
    exact ⟨hi, hhi⟩
  obtain ⟨hi', hhi', -⟩ := hs.idle init last (List.prefix_refl _) t hinit (by rw [hr]; simp)
  have hhi'' := report_hostAt hhi' hr hstep
  -- the calls are a run of reports on the host
  obtain ⟨hreports, halong⟩ := run_hostAt init lb hi hf hhi hinit hhi'
  obtain ⟨-, hall⟩ := run_hostAt (init ++ [last]) lb hi hf hhi hcalls hhi''
  have hsplit : (init ++ [last]).filterMap (Op.reportOn k) = init.filterMap (Op.reportOn k) ++ [r] := by
    rw [List.filterMap_append, List.filterMap_cons_some hr, List.filterMap_nil]
  have hmet : HostInfo.MetIdle E hi (init.filterMap (Op.reportOn k) ++ [r]) := by
    rw [← hsplit]
    refine (hall fun h _ => h.overload = false).1 fun pre op hpre u hu r' h hr' hh => ?_
    obtain ⟨h', hh', hidle⟩ := hs.idle pre op hpre u hu (by rw [hr']; simp)
    rw [hh] at hh'
    cases hh'
    exact hidle
  have hlen : ((init.filterMap (Op.reportOn k)).length : ℤ) + 1 = E.config.conErrLimit.toInt := by
    rw [← hs.length, hsplit, List.length_append, List.length_singleton]
    push_cast
    rfl
  have hfail := hs.failures
  rw [hsplit] at hfail
  have hhost := HostInfo.streak_host hl (hostAt_belowLimit hl hrun hhi) hlen hfail hmet hreports rfl
  have hwin : WindowStays E k lb init ↔ HostInfo.NoWindowEnds E hi (init.filterMap (Op.reportOn k)) :=
    halong fun h r' => ¬ HostInfo.WindowEnds E h r'.currentTime
  have hover : lb'.Overloaded k ↔ (hi'.report E r.currentTime r.ts r.retcode).1.overload = true := by
    unfold Overloaded
    rw [hhi'']
    simp
  have hlastReaches : LastReaches E k lb (init ++ [last]) ↔
      HostInfo.RateReached E hi' r.retcode ∨ HostInfo.WindowReached E hi' r := by
    unfold LastReaches
    rw [List.dropLast_concat, List.getLast?_concat]
    constructor
    · rintro ⟨u, op, r', h, hu, hop, hr', hh, hreach⟩
      rw [hinit] at hu
      cases hu
      cases hop
      rw [hr] at hr'
      cases hr'
      rw [hhi'] at hh
      cases hh
      exact hreach
    · exact fun hreach => ⟨t, last, r, hi', hinit, rfl, hr, hhi', hreach⟩
  rw [List.dropLast_concat, hwin, hover, hlastReaches]
  exact hhost

/-! ## Two streaks -/

/-- A test that a call, if it reports on the host, meets it idle. -/
def meetsIdle (k : UInt64) (lb : LoadBalance) (op : Op) : Bool :=
  (op.reportOn k).isNone || ((lb.hostAt k).map HostInfo.overload == some false)

theorem streak_of_check {first last : Op} {calls : List Op} (hfirst : (first.reportOn k).isSome = true)
    (hlast : (last.reportOn k).isSome = true)
    (hlen : (((first :: calls ++ [last]).filterMap (Op.reportOn k)).length : ℤ) = E.config.conErrLimit.toInt)
    (hfail : ∀ r ∈ (first :: calls ++ [last]).filterMap (Op.reportOn k), r.retcode ≠ RetCode.succ.toInt32)
    (hidle : Runs.check (step E) (meetsIdle k) lb (first :: calls ++ [last]) = true) :
    Streak E k lb (first :: calls ++ [last]) := by
  obtain ⟨r, hr⟩ := Option.isSome_iff_exists.1 hfirst
  obtain ⟨r', hr'⟩ := Option.isSome_iff_exists.1 hlast
  refine ⟨⟨first, r, rfl, hr⟩, ⟨last, r', List.getLast?_concat, hr'⟩, hlen, hfail, ?_⟩
  refine Runs.along_of_check hidle fun _ t op hop hon => ?_
  unfold meetsIdle at hop
  rw [Bool.or_eq_true, beq_iff_eq] at hop
  rcases hop with hnone | hmap
  · exact absurd (Option.isNone_iff_eq_none.1 hnone) hon
  · obtain ⟨hi, hhi, hover⟩ := Option.map_eq_some_iff.1 hmap
    exact ⟨hi, hhi, hover⟩

/-- One host, and `n` successes. -/
def oneHost (n : ℕ) : List Op :=
  .update 0 (fun _ => ⟨0, 0⟩) ⟨1, 1, [⟨1, 80⟩]⟩ :: List.replicate n (.report 1 1 1 80 0)

/-- `n` failures at one time. -/
def failuresAt (now : ℤ) (n : ℕ) : List Op := List.replicate n (.report now now 1 80 4)

/-- Fifteen failures at once overload the host: with fifty successes before them the error rate alone
would not. -/
theorem streak_overloads_fifteen :
    let calls : List Op := .report 2 2 1 80 4 :: failuresAt 2 13 ++ [.report 2 2 1 80 4]
    ∃ lb lb', Runs.run (step Env.shipped) (new 1 1 0) (oneHost 50) = .ok lb ∧
      Runs.run (step Env.shipped) lb calls = .ok lb' ∧
      (WindowStays Env.shipped (key 1 80) lb calls.dropLast → lb'.Overloaded (key 1 80)) ∧
      (¬ WindowStays Env.shipped (key 1 80) lb calls.dropLast →
        (lb'.Overloaded (key 1 80) ↔ LastReaches Env.shipped (key 1 80) lb calls)) := by
  intro calls
  have hall : ((Runs.run (step Env.shipped) (new 1 1 0) (oneHost 50)).toOption.map fun lb =>
      (Runs.check (step Env.shipped) (meetsIdle (key 1 80)) lb calls,
        (Runs.run (step Env.shipped) lb calls).toOption.map fun _ => true)) = some (true, some true) := by
    decide +kernel
  obtain ⟨lb, hrun, hlb⟩ := Runs.ok_of_toOption hall
  obtain ⟨hcheck, hok⟩ := Prod.mk.inj hlb
  obtain ⟨lb', hcalls, -⟩ := Runs.ok_of_toOption hok
  have hs : Streak Env.shipped (key 1 80) lb calls :=
    streak_of_check (by decide) (by decide) (by decide +kernel) (by decide +kernel) hcheck
  exact ⟨lb, lb', hrun, hcalls, streak_overloads Env.shipped (by decide) hrun hs hcalls⟩

/-- Seven failures, the last of them at the end of a window, and eight more: fifteen in a row, and
the host is idle. -/
theorem streak_overloads_fails :
    ¬ ∀ (E : Env), 1 ≤ E.config.conErrLimit → ∀ (modid cmdid accessCnt : Int32) (c : ℤ) (ops calls : List Op)
      (lb lb' : LoadBalance) (k : UInt64),
      Runs.run (step E) (new modid cmdid accessCnt) ops = .ok lb → Runs.run (step E) lb calls = .ok lb' →
      HostInfo.Clocked c ((ops ++ calls).filterMap Op.report?) → Streak E k lb calls → lb'.Overloaded k := by
  intro h
  set calls : List Op := .report 2 2 1 80 4 :: (failuresAt 2 5 ++ failuresAt 15 1 ++ failuresAt 16 7) ++
    [.report 16 16 1 80 4] with hcallsEq
  have hall : ((Runs.run (step Env.shipped) (new 1 1 0) (oneHost 4)).toOption.map fun lb =>
      (Runs.check (step Env.shipped) (meetsIdle (key 1 80)) lb calls,
        (Runs.run (step Env.shipped) lb calls).toOption.map fun lb' =>
          (lb'.hostAt (key 1 80)).map HostInfo.overload)) = some (true, some (some false)) := by decide +kernel
  obtain ⟨lb, hrun, hlb⟩ := Runs.ok_of_toOption hall
  obtain ⟨hcheck, hok⟩ := Prod.mk.inj hlb
  obtain ⟨lb', hcalls, hidle⟩ := Runs.ok_of_toOption hok
  have hs : Streak Env.shipped (key 1 80) lb calls :=
    streak_of_check (by decide) (by decide) (by decide +kernel) (by decide +kernel) hcheck
  obtain ⟨hi, hhi, hover⟩ := h Env.shipped (by decide) 1 1 0 0 _ calls lb lb' (key 1 80) hrun hcalls
    (by simp [hcallsEq, oneHost, failuresAt, List.replicate, List.filterMap_cons, Op.report?,
      HostInfo.Clocked]) hs
  rw [hhi, Option.map_some, hover] at hidle
  cases hidle

end LoadBalance

end LbRpc
