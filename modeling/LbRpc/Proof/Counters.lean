import LbRpc.Proof.LoadBalanceStep
import Mathlib.Algebra.Order.Field.Rat
import Mathlib.Algebra.Order.Field.Basic
import Mathlib.Tactic.Positivity
import Mathlib.Tactic.Linarith

/-!
# The counters of a host

`Sound`: between reports the counters of an idle host are its seed and what was reported
since, and it has not reached the condition to be overloaded; the other way round for
an overloaded host.

* `Sound.report`: every way a report can go keeps this.
* `counters_sound`: every host of every state a load balancer reaches is sound.
-/

namespace LbRpc

namespace HostInfo

variable {E : Env} {hi : HostInfo}

/-- An idle host: the seed and the reports since, below both limits. The seed is the
`uint32_t` that `init_succ_cnt` is stored as. -/
structure IdleOK (E : Env) (hi : HostInfo) : Prop where
  vsucc : hi.vsucc.toNat = E.config.initSuccCnt.toUInt32.toNat + hi.rsucc.toNat
  verr : hi.verr.toNat = hi.rerr.toNat
  rate : (hi.verr.toNat : ℚ) ≤ E.config.errRate * (hi.vsucc.toNat + hi.verr.toNat)
  conErr : (hi.conErr.toNat : ℤ) < E.config.conErrLimit.toInt

/-- An overloaded host: the seed and the reports since, below both limits. -/
structure OverloadOK (E : Env) (hi : HostInfo) : Prop where
  vsucc : hi.vsucc.toNat = hi.rsucc.toNat
  verr : hi.verr.toNat = E.config.initErrCnt.toUInt32.toNat + hi.rerr.toNat
  rate : (hi.vsucc.toNat : ℚ) ≤ E.config.succRate * (hi.vsucc.toNat + hi.verr.toNat)
  conSucc : (hi.conSucc.toNat : ℤ) < E.config.conSuccLimit.toInt

/-- What the counters of a host say between reports. -/
structure Sound (E : Env) (hi : HostInfo) : Prop where
  idle : hi.overload = false → IdleOK E hi
  overload : hi.overload = true → OverloadOK E hi

/-- The counters that a report adds to are not at their maximum. -/
def NoWrap (retcode : Int32) (hi : HostInfo) : Prop :=
  if retcode = RetCode.succ.toInt32 then
    hi.vsucc.toNat + 1 < 2 ^ 32 ∧ hi.rsucc.toNat + 1 < 2 ^ 32 ∧ hi.conSucc.toNat + 1 < 2 ^ 32
  else hi.verr.toNat + 1 < 2 ^ 32 ∧ hi.rerr.toNat + 1 < 2 ^ 32 ∧ hi.conErr.toNat + 1 < 2 ^ 32

/-- What the configuration is taken to satisfy. -/
structure RatesOK (E : Env) : Prop where
  /-- rates are compared in exact arithmetic -/
  exact : E.round = id
  errRate : 0 ≤ E.config.errRate
  succRate : 0 ≤ E.config.succRate
  conErrLimit : 1 ≤ E.config.conErrLimit
  conSuccLimit : 1 ≤ E.config.conSuccLimit

theorem toInt_pos {c : Int32} (h : 1 ≤ c) : 0 < c.toInt := by
  have := Int32.le_iff_toInt_le.1 h
  have h1 : (1 : Int32).toInt = 1 := rfl
  omega

/-- A rate that is not above its limit, with a denominator that may have wrapped. -/
theorem le_of_not_rateAbove (hexact : E.round = id) {num m k : UInt32} {limit : ℚ} (h0 : 0 ≤ limit)
    (h : rateAbove E num (m + k) limit = false) :
    (num.toNat : ℚ) ≤ limit * (m.toNat + k.toNat) := by
  have hsum : (m + k).toNat ≤ m.toNat + k.toNat := by
    rw [UInt32.toNat_add]
    exact Nat.mod_le _ _
  have hsumQ : ((m + k).toNat : ℚ) ≤ m.toNat + k.toNat := by exact_mod_cast hsum
  unfold rateAbove at h
  split at h
  · -- over a zero denominator only a zero numerator is not above the limit
    have hz : num = 0 := by simpa using h
    rw [hz]
    have : (0 : ℚ) ≤ limit * (m.toNat + k.toNat) := by positivity
    simpa using this
  · rename_i hden
    have hden0 : (m + k).toNat ≠ 0 := fun hc => hden (UInt32.toNat_inj.1 hc)
    have hpos : (0 : ℚ) < (m + k).toNat := by exact_mod_cast Nat.pos_of_ne_zero hden0
    have hle : (num.toNat : ℚ) / (m + k).toNat ≤ limit := by
      simpa [hexact] using h
    calc (num.toNat : ℚ) ≤ limit * (m + k).toNat := (div_le_iff₀ hpos).1 hle
      _ ≤ limit * (m.toNat + k.toNat) := mul_le_mul_of_nonneg_left hsumQ h0

/-- A run of equal results that has not reached its limit. -/
theorem lt_of_not_reached {c : UInt32} {limit : Int32} (hl : 1 ≤ limit)
    (h : decide (limit.toUInt32 ≤ c) = false) : (c.toNat : ℤ) < limit.toInt := by
  have hlt : ¬ limit.toUInt32.toNat ≤ c.toNat := by
    rw [← UInt32.le_iff_toNat_le]
    simpa using h
  have := toNat_limit hl
  omega

/-! ## Where the counters start -/

theorem IdleOK.start (hE : RatesOK E) (hv : hi.vsucc = E.config.initSuccCnt.toUInt32) (he : hi.verr = 0)
    (hrs : hi.rsucc = 0) (hre : hi.rerr = 0) (hc : hi.conErr = 0) : IdleOK E hi where
  vsucc := by rw [hv, hrs]; rfl
  verr := by rw [he, hre]
  rate := by
    have := hE.errRate
    rw [he]
    have h0 : (0 : ℚ) ≤ E.config.errRate * (hi.vsucc.toNat + (0 : UInt32).toNat) := by positivity
    simpa using h0
  conErr := by rw [hc]; exact toInt_pos hE.conErrLimit

theorem sound_new (hE : RatesOK E) (ip : UInt32) (port : Int32) (junk : Junk) :
    Sound E (new ip port E.config.initSuccCnt.toUInt32 junk) :=
  ⟨fun _ => .start hE rfl rfl rfl rfl rfl, fun h => by cases h⟩

theorem sound_setIdle (hE : RatesOK E) (ts : ℤ) : Sound E (hi.setIdle E ts) :=
  ⟨fun _ => .start hE rfl rfl rfl rfl rfl, fun h => by cases h⟩

theorem sound_setOverload (hE : RatesOK E) (ts : ℤ) : Sound E (hi.setOverload E ts) := by
  refine ⟨fun h => (by cases h), fun _ => ⟨rfl, rfl, ?_, toInt_pos hE.conSuccLimit⟩⟩
  have := hE.succRate
  have h0 : (0 : ℚ) ≤ E.config.succRate * ((0 : UInt32).toNat + E.config.initErrCnt.toUInt32.toNat) := by
    positivity
  simpa [setOverload] using h0

/-! ## Counting -/

/-- A success moves an idle host away from its limits. -/
theorem IdleOK.count_succ (hE : RatesOK E) (h : IdleOK E hi)
    (hw : NoWrap RetCode.succ.toInt32 hi) : IdleOK E (hi.count RetCode.succ.toInt32) := by
  unfold NoWrap at hw
  rw [if_pos rfl] at hw
  have hv := toNat_add_one hw.1
  have hr := toNat_add_one hw.2.1
  have hvs := h.vsucc
  unfold count
  rw [if_pos rfl]
  refine ⟨?_, h.verr, ?_, toInt_pos hE.conErrLimit⟩
  · show (hi.vsucc + 1).toNat = _ + (hi.rsucc + 1).toNat
    omega
  · show (hi.verr.toNat : ℚ) ≤ _ * ((hi.vsucc + 1).toNat + hi.verr.toNat)
    have hgrow : E.config.errRate * (hi.vsucc.toNat + hi.verr.toNat) ≤
        E.config.errRate * ((hi.vsucc + 1).toNat + hi.verr.toNat) := by
      rw [hv]
      push_cast
      exact mul_le_mul_of_nonneg_left (by linarith) hE.errRate
    exact h.rate.trans hgrow

/-- A failure that does not overload an idle host leaves it below both limits. -/
theorem IdleOK.count_err (hE : RatesOK E) (h : IdleOK E hi) {rc : Int32}
    (hrc : rc ≠ RetCode.succ.toInt32) (hw : NoWrap rc hi)
    (hstay : (hi.count rc).reachesOverload E = false) : IdleOK E (hi.count rc) := by
  unfold NoWrap at hw
  rw [if_neg hrc] at hw
  have hv := toNat_add_one hw.1
  have hr := toNat_add_one hw.2.1
  have hve := h.verr
  unfold reachesOverload at hstay
  rw [Bool.or_eq_false_iff] at hstay
  unfold count at hstay ⊢
  rw [if_neg hrc] at hstay ⊢
  refine ⟨h.vsucc, ?_, le_of_not_rateAbove hE.exact hE.errRate hstay.1,
    lt_of_not_reached hE.conErrLimit hstay.2⟩
  show (hi.verr + 1).toNat = (hi.rerr + 1).toNat
  omega

/-- A failure moves an overloaded host away from its limits. -/
theorem OverloadOK.count_err (hE : RatesOK E) (h : OverloadOK E hi) {rc : Int32}
    (hrc : rc ≠ RetCode.succ.toInt32) (hw : NoWrap rc hi) : OverloadOK E (hi.count rc) := by
  unfold NoWrap at hw
  rw [if_neg hrc] at hw
  have hv := toNat_add_one hw.1
  have hr := toNat_add_one hw.2.1
  have hve := h.verr
  unfold count
  rw [if_neg hrc]
  refine ⟨h.vsucc, ?_, ?_, toInt_pos hE.conSuccLimit⟩
  · show (hi.verr + 1).toNat = _ + (hi.rerr + 1).toNat
    omega
  · show (hi.vsucc.toNat : ℚ) ≤ _ * (hi.vsucc.toNat + (hi.verr + 1).toNat)
    have hgrow : E.config.succRate * (hi.vsucc.toNat + hi.verr.toNat) ≤
        E.config.succRate * (hi.vsucc.toNat + (hi.verr + 1).toNat) := by
      rw [hv]
      push_cast
      exact mul_le_mul_of_nonneg_left (by linarith) hE.succRate
    exact h.rate.trans hgrow

/-- A success that does not bring an overloaded host back leaves it below both limits. -/
theorem OverloadOK.count_succ (hE : RatesOK E) (h : OverloadOK E hi)
    (hw : NoWrap RetCode.succ.toInt32 hi)
    (hstay : (hi.count RetCode.succ.toInt32).reachesIdle E = false) :
    OverloadOK E (hi.count RetCode.succ.toInt32) := by
  unfold NoWrap at hw
  rw [if_pos rfl] at hw
  have hv := toNat_add_one hw.1
  have hr := toNat_add_one hw.2.1
  have hvs := h.vsucc
  unfold reachesIdle at hstay
  rw [Bool.or_eq_false_iff] at hstay
  unfold count at hstay ⊢
  rw [if_pos rfl] at hstay ⊢
  refine ⟨?_, h.verr, le_of_not_rateAbove hE.exact hE.succRate hstay.1,
    lt_of_not_reached hE.conSuccLimit hstay.2⟩
  show (hi.vsucc + 1).toNat = (hi.rsucc + 1).toNat
  omega

/-- **A report keeps a host sound**, whichever of its rules fires. -/
theorem Sound.report (hE : RatesOK E) (h : Sound E hi) (now ts : ℤ) {rc : Int32}
    (hw : NoWrap rc hi) : Sound E (hi.report E now ts rc).1 := by
  have hrep := hi.reported E now ts rc
  generalize (hi.report E now ts rc).1 = hi' at hrep ⊢
  generalize (hi.report E now ts rc).2 = v at hrep
  rcases hrep with ⟨-, -, -⟩ | ⟨-, -, -⟩ | ⟨-, -, -, -⟩ | ⟨-, -, -, -⟩ | ⟨-, -, -⟩ |
    ⟨ho, hstay, -⟩ | ⟨ho, hstay, -⟩
  · exact sound_setOverload hE ts
  · exact sound_setIdle hE ts
  · exact sound_setOverload hE ts
  · exact sound_setIdle hE ts
  · exact sound_setIdle hE ts
  · -- the host stays idle: a success has no check, a failure has passed it
    refine ⟨fun _ => ?_, fun hc => (by rw [count_overload, ho] at hc; cases hc)⟩
    by_cases hrc : rc = RetCode.succ.toInt32
    · subst hrc
      exact (h.idle ho).count_succ hE hw
    · exact (h.idle ho).count_err hE hrc hw (hstay hrc)
  · -- the host stays overloaded, the other way round
    refine ⟨fun hc => (by rw [count_overload, ho] at hc; cases hc), fun _ => ?_⟩
    by_cases hrc : rc = RetCode.succ.toInt32
    · subst hrc
      exact (h.overload ho).count_succ hE hw (hstay rfl)
    · exact (h.overload ho).count_err hE hrc hw

end HostInfo

namespace LoadBalance

/-- A report of the run finds the counters it adds to below their maximum. -/
def NoCounterWraps (_ : List Op) (lb : LoadBalance) (op : Op) : Prop :=
  ∀ now ts ip port rc a hi, op = .report now ts ip port rc →
    lb.hostMap.lookup (key ip port) = some a → lb.heap.read a = some hi → hi.NoWrap rc

/-- **The counters of every host in every reachable state.** Whatever the responses, the
reports, their clock readings and the picks between them, each host that lives is
sound after each call. -/
theorem counters_sound (E : Env) (hE : HostInfo.RatesOK E) (modid cmdid accessCnt : Int32)
    (ops : List Op) (hw : Runs.Along (step E) NoCounterWraps (new modid cmdid accessCnt) ops) :
    Runs.Throughout (step E) (fun _ lb => ∀ a hi, lb.heap.read a = some hi → hi.Sound E)
      (new modid cmdid accessCnt) ops := by
  refine Runs.throughout_of_along (C := NoCounterWraps) ?_ ?_ hw
  · intro a hi h
    rw [show (new modid cmdid accessCnt).heap.read a = none from rfl] at h
    cases h
  · intro pre op lb lb' hsound hop hstep a hi hr
    rcases step_host hstep hr with ⟨h⟩ | ⟨hk, h⟩ | ⟨-, -⟩
    · exact hsound a hi h
    · exact (hsound a _ h).report hE _ _ (hop _ _ _ _ _ a _ rfl hk h)
    · exact HostInfo.sound_new hE _ _ _

theorem ratesOK_shipped : HostInfo.RatesOK Env.shipped where
  exact := rfl
  errRate := by norm_num [Env.shipped]
  succRate := by norm_num [Env.shipped]
  conErrLimit := by decide
  conSuccLimit := by decide

/-- Two hosts, then a failure reported for the first. -/
theorem counters_sound_two :
    let ops : List Op := [.update 0 (fun _ => ⟨0, 0⟩) ⟨1, 1, [⟨1, 80⟩, ⟨2, 80⟩]⟩, .report 1 1 1 80 4]
    Runs.Throughout (step Env.shipped)
      (fun _ lb => ∀ a hi, lb.heap.read a = some hi → hi.Sound Env.shipped) (new 1 1 0) ops := by
  intro ops
  refine counters_sound Env.shipped ratesOK_shipped 1 1 0 ops ?_
  refine Runs.along_cons.2 ⟨fun _ _ _ _ _ _ _ h => (by cases h), fun t ht => ?_⟩
  refine Runs.along_cons.2 ⟨?_, fun _ _ => Runs.along_nil⟩
  intro now ts ip port rc a hi hop _ hr
  cases hop
  -- the host is one of the two that the response brought
  rcases step_host ht hr with ⟨h⟩ | _ | ⟨-, -⟩
  · cases h
  · have hzero : (0 : UInt32).toNat + 1 < 2 ^ 32 := by decide
    unfold HostInfo.NoWrap
    rw [if_neg (by decide)]
    exact ⟨hzero, hzero, hzero⟩

end LoadBalance

end LbRpc
