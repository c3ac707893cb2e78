import LbRpc.Agent.MainServer
import LbRpc.Proof.HostRun
import Mathlib.Algebra.Order.Field.Rat
import Mathlib.Algebra.Order.Field.Basic
import Mathlib.Tactic.Linarith

/-!
# How an overloaded host comes back

`tally` runs a host together with what was reported to it since it was overloaded.

* `Recovers`: a host that comes back before its timeout has met the rule, with the
  seed of the configuration file added to its errors.
* `tallyOK_step`: the counters of an overloaded host are its tally.
* `recovers_by_rule`: the rule holds along every run, **as long as** the file's
  `init_err_cnt` makes no difference to it. `init_lb_agent` never loads that key.
-/

namespace LbRpc

/-- What was reported to a host since it was overloaded: successes, errors, the current
run of successes, and when it was overloaded. -/
structure Tally where
  succ : ℕ
  err : ℕ
  run : ℕ
  since : ℤ

/-- One more report. -/
def Tally.add (retcode : Int32) (t : Tally) : Tally :=
  if retcode = RetCode.succ.toInt32 then { t with succ := t.succ + 1, run := t.run + 1 }
  else { t with err := t.err + 1, run := 0 }

/-- The `init_err_cnt` of a configuration file. -/
def ConfigFile.initErrCnt (cf : ConfigFile) : ℕ := (lbNumber cf "init_err_cnt" 0).toNat

/-- The library's arithmetic on rates: a division rounds monotonically, and a `float`
is a `double`. -/
structure FloatText.Exact (F : FloatText) (round : ℚ → ℚ) : Prop where
  mono : Monotone round
  zero : round 0 = 0
  read : ∀ s v, F.read s = some v → round v = v

theorem FloatText.Exact.lbFloat {F : FloatText} {round : ℚ → ℚ} (h : F.Exact round) (cf : ConfigFile)
    (key : String) (d : ℚ) : round (lbFloat F cf key d) = lbFloat F cf key d := by
  unfold LbRpc.lbFloat ConfigFile.getFloat
  rcases hr : F.read (cf.getString "loadbalance".toList key.toList (F.print (F.f32 d))) with _ | v
  · exact h.zero
  · exact h.read _ v hr

/-- The agent that runs on a configuration file. -/
def agentEnv (F : FloatText) (round : ℚ → ℚ) (cf : ConfigFile) (hostIp : UInt32) : Env where
  config := initLbAgent F cf hostIp
  round := round

namespace HostInfo

variable {E : Env}

/-- One report, with the tally since the host was overloaded. -/
def tally (E : Env) (s : HostInfo × Tally) (r : Report) : Except Fault (HostInfo × Tally) :=
  let p := s.1.report E r.currentTime r.ts r.retcode
  .ok (p.1, if p.2.setsOverload then ⟨0, 0, 0, r.ts⟩ else s.2.add r.retcode)

/-- A host that comes back before its timeout has a success rate above the limit, with
`seed` errors more than were reported, or a run of successes that reached the limit. -/
def Recovers (E : Env) (seed : ℕ) (_ : List Report) (s : HostInfo × Tally) (r : Report) : Prop :=
  s.1.overload = true → (s.1.report E r.currentTime r.ts r.retcode).1.overload = false →
    r.currentTime - s.2.since < E.config.overloadTimeout →
      let t := s.2.add r.retcode
      E.config.succRate < (t.succ : ℚ) / (t.succ + t.err + seed) ∨
        E.config.conSuccLimit.toInt ≤ t.run

instance (seed : ℕ) (pre : List Report) (s : HostInfo × Tally) (r : Report) :
    Decidable (Recovers E seed pre s r) := by
  unfold Recovers
  infer_instance

/-- Fewer than `2^32` reports reach the host while it stays overloaded. -/
def FewReports (_ : List Report) (s : HostInfo × Tally) (_ : Report) : Prop :=
  s.1.overload = true → s.2.succ + s.2.err + 1 < 2 ^ 32

/-- The seed makes no difference to the rule. -/
def SeedIdle (E : Env) (seed : ℕ) : Prop :=
  seed = 0 ∨ E.config.succRate ≤ 0 ∨ 1 ≤ E.config.succRate ∨ E.config.conSuccLimit ≤ 1

/-- The counters of an overloaded host are its tally. -/
structure TallyOK (hi : HostInfo) (t : Tally) : Prop where
  vsucc : hi.vsucc.toNat = t.succ
  verr : hi.verr.toNat = t.err
  conSucc : hi.conSucc.toNat = t.run
  since : hi.overloadTs = t.since
  run_le : t.run ≤ t.succ

theorem TallyOK.count {hi : HostInfo} {t : Tally} (h : TallyOK hi t) (hfew : t.succ + t.err + 1 < 2 ^ 32)
    (rc : Int32) : TallyOK (hi.count rc) (t.add rc) := by
  have hrun := h.run_le
  -- no counter is at its maximum, since the tally is not
  have hcount : ∀ {c : UInt32} {n : ℕ}, c.toNat = n → n + 1 < 2 ^ 32 → (c + 1).toNat = n + 1 := by
    rintro c n rfl hn
    exact toNat_add_one hn
  unfold HostInfo.count Tally.add
  split
  · exact ⟨hcount h.vsucc (by omega), h.verr, hcount h.conSucc (by omega), h.since,
      Nat.succ_le_succ hrun⟩
  · exact ⟨h.vsucc, hcount h.verr (by omega), rfl, h.since, Nat.zero_le _⟩

theorem tallyOK_setOverload (hE : E.config.initErrCnt = 0) (hi : HostInfo) (ts : ℤ) :
    TallyOK (hi.setOverload E ts) ⟨0, 0, 0, ts⟩ :=
  ⟨rfl, (by unfold setOverload; rw [hE]; rfl), rfl, rfl, le_rfl⟩

/-- **One report keeps the counters of an overloaded host equal to its tally.** -/
theorem tallyOK_step (hE : E.config.initErrCnt = 0) {s u : HostInfo × Tally} {r : Report}
    (h : s.1.overload = true → TallyOK s.1 s.2) (hfew : FewReports [] s r) (hs : tally E s r = .ok u) :
    u.1.overload = true → TallyOK u.1 u.2 := by
  cases hs
  have hrep := s.1.reported E r.currentTime r.ts r.retcode
  generalize (s.1.report E r.currentTime r.ts r.retcode).1 = hi' at hrep ⊢
  generalize (s.1.report E r.currentTime r.ts r.retcode).2 = v at hrep ⊢
  intro hover
  rcases hrep with ⟨-, -, -⟩ | ⟨-, -, -⟩ | ⟨-, -, -, -⟩ | ⟨-, -, -, -⟩ | ⟨-, -, -⟩ |
    ⟨ho, -, -⟩ | ⟨ho, -, -⟩
  · exact tallyOK_setOverload hE _ _
  · cases hover
  · exact tallyOK_setOverload hE _ _
  · cases hover
  · cases hover
  · -- an idle host that stays as it is does not become overloaded
    rw [count_overload, ho] at hover; cases hover
  · exact (h ho).count (hfew ho) _

/-- The code's comparison of rates is exact: a rounded quotient above a `double` is
above it before rounding. -/
theorem lt_of_rateAbove (hmono : Monotone E.round) {num m k : UInt32} {limit : ℚ}
    (hfix : E.round limit = limit) (hnum : 0 < num.toNat) (hsum : m.toNat + k.toNat < 2 ^ 32)
    (hle : num.toNat ≤ m.toNat) (h : rateAbove E num (m + k) limit = true) :
    limit < (num.toNat : ℚ) / (m.toNat + k.toNat) := by
  have hden : (m + k).toNat = m.toNat + k.toNat := by
    rw [UInt32.toNat_add]
    exact Nat.mod_eq_of_lt hsum
  have hne : m + k ≠ 0 := fun hz => by
    rw [hz] at hden
    have h0 : (0 : UInt32).toNat = 0 := rfl
    omega
  unfold rateAbove at h
  rw [if_neg hne, decide_eq_true_eq, hden] at h
  -- rounding is monotone and fixes the limit, so it lifts no quotient above it
  by_contra hcon
  have hle' : (num.toNat : ℚ) / (m.toNat + k.toNat : ℕ) ≤ limit := by
    push_cast
    exact not_lt.1 hcon
  have := hmono hle'
  rw [hfix] at this
  exact absurd h (not_lt.2 this)

/-- A share is at most one. -/
theorem share_le_one (m k : ℕ) : (m : ℚ) / (m + k) ≤ 1 := by
  rcases Nat.eq_zero_or_pos (m + k) with h | h
  · have hm : m = 0 := by omega
    rw [hm]; simp
  · have hpos : (0 : ℚ) < m + k := by exact_mod_cast h
    rw [div_le_one hpos]
    have hk : (0 : ℚ) ≤ k := Nat.cast_nonneg k
    linarith

/-- A share that is above the limit without the seed is above it with the seed, where the
configuration makes the seed harmless; or a run of one is long enough. -/
theorem share_with_seed {seed succ err : ℕ} (hseed : SeedIdle E seed) (hsucc : 0 < succ)
    (hlim : 1 < E.config.conSuccLimit.toInt)
    (h : E.config.succRate < (succ : ℚ) / (succ + err)) :
    E.config.succRate < (succ : ℚ) / (succ + err + seed) := by
  rcases hseed with h0 | h0 | h0 | h0
  · simpa [h0] using h
  · have hs : (0 : ℚ) < succ := by exact_mod_cast hsucc
    have he : (0 : ℚ) ≤ err := Nat.cast_nonneg _
    have hd : (0 : ℚ) ≤ seed := Nat.cast_nonneg _
    have hpos : (0 : ℚ) < (succ : ℚ) / (succ + err + seed) := div_pos hs (by linarith)
    exact lt_of_le_of_lt h0 hpos
  · -- no share is above a limit of one or more
    have hle := share_le_one succ err
    linarith
  · have hle := Int32.le_iff_toInt_le.1 h0
    have h1 : (1 : Int32).toInt = 1 := rfl
    omega

/-- The comparison with `con_succ_limit`, which the code makes as unsigned numbers. -/
theorem limit_le_run {c : UInt32} {run : ℕ} (hc : c.toNat = run) (hlim : 1 < E.config.conSuccLimit.toInt)
    (h : E.config.conSuccLimit.toUInt32 ≤ c) : E.config.conSuccLimit.toInt ≤ run := by
  have hlim' : (1 : Int32) ≤ E.config.conSuccLimit := Int32.le_iff_toInt_le.2 hlim.le
  have hsame := toNat_limit hlim'
  have hle := UInt32.le_iff_toNat_le.1 h
  omega

/-- **The rule at one report.** -/
theorem recovers_of_tally {seed : ℕ} (hmono : Monotone E.round)
    (hfix : E.round E.config.succRate = E.config.succRate) (hseed : SeedIdle E seed)
    {s : HostInfo × Tally} {r : Report} (h : s.1.overload = true → TallyOK s.1 s.2)
    (hfew : FewReports [] s r) (pre : List Report) : Recovers E seed pre s r := by
  intro hover hidle hearly
  have htally := (h hover).count (hfew hover) r.retcode
  have hsince := (h hover).since
  have hrep := s.1.reported E r.currentTime r.ts r.retcode
  generalize (s.1.report E r.currentTime r.ts r.retcode).1 = hi' at hrep hidle
  generalize (s.1.report E r.currentTime r.ts r.retcode).2 = v at hrep
  rcases hrep with ⟨ho, -, -⟩ | ⟨-, hrc, hreach⟩ | ⟨ho, -, -, -⟩ | ⟨ho, -, -, -⟩ | ⟨-, -, ht⟩ |
    ⟨ho, -, -⟩ | ⟨-, -, -⟩
  · rw [hover] at ho; cases ho
  · -- the rule of the code fired
    have hsucc : 0 < (s.2.add r.retcode).succ := by
      unfold Tally.add
      rw [if_pos hrc]
      exact Nat.succ_pos _
    have hrun : 1 ≤ (s.2.add r.retcode).run := by
      unfold Tally.add
      rw [if_pos hrc]
      exact Nat.succ_pos _
    have hsum : (s.2.add r.retcode).succ + (s.2.add r.retcode).err < 2 ^ 32 := by
      have := hfew hover
      unfold Tally.add
      rw [if_pos hrc]
      dsimp only
      omega
    generalize s.2.add r.retcode = t at htally hsucc hrun hsum ⊢
    generalize s.1.count r.retcode = c at htally hreach
    -- a limit of one or less is met by the success itself, also where it is negative
    -- and the code compares it as a huge unsigned number
    rcases le_or_gt E.config.conSuccLimit.toInt 1 with hlim | hlim
    · exact Or.inr (by omega)
    unfold reachesIdle at hreach
    rw [Bool.or_eq_true, decide_eq_true_eq] at hreach
    rcases hreach with hrate | hcon
    · left
      have hexact := lt_of_rateAbove hmono hfix (by rw [htally.vsucc]; exact hsucc)
        (by rw [htally.vsucc, htally.verr]; exact hsum) le_rfl hrate
      rw [htally.vsucc, htally.verr] at hexact
      exact share_with_seed hseed hsucc hlim hexact
    · right
      exact limit_le_run htally.conSucc hlim hcon
  · rw [hover] at ho; cases ho
  · rw [hover] at ho; cases ho
  · -- the timeout is not early
    omega
  · rw [hover] at ho; cases ho
  · rw [count_overload, hover] at hidle; cases hidle

end HostInfo

/-- A run of fewer than `2^32` reports wraps no tally. -/
theorem fewReports_of_length {E : Env} : ∀ (rs : List Report) (s : HostInfo × Tally),
    s.2.succ + s.2.err + rs.length < 2 ^ 32 →
    Runs.Along (HostInfo.tally E) HostInfo.FewReports s rs := by
  intro rs
  induction rs with
  | nil => exact fun _ _ => Runs.along_nil
  | cons r rs ih =>
    intro s hlen
    rw [List.length_cons] at hlen
    refine Runs.along_cons.2 ⟨fun _ => by omega, fun u hu => ih u ?_⟩
    cases hu
    dsimp only
    split
    · dsimp only; omega
    · unfold Tally.add
      split <;> dsimp only <;> omega

/-- **How an overloaded host comes back, over every run.** For every configuration file,
every host and every sequence of reports in which fewer than `2^32` reports reach the
host while it stays overloaded: the host comes back before its timeout by the rule only,
if the file's `init_err_cnt` is absent or zero, or the success rate is outside `(0, 1)`,
or one success is enough anyway. -/
theorem recovers_by_rule (F : FloatText) (round : ℚ → ℚ) (hF : F.Exact round) (cf : ConfigFile)
    (hostIp ip : UInt32) (port : Int32) (junk : Junk) (t : Tally) (rs : List Report)
    (hseed : HostInfo.SeedIdle (agentEnv F round cf hostIp) cf.initErrCnt)
    (hfew : Runs.Along (HostInfo.tally (agentEnv F round cf hostIp)) HostInfo.FewReports
      (HostInfo.new ip port (agentEnv F round cf hostIp).config.initSuccCnt.toUInt32 junk, t) rs) :
    Runs.Along (HostInfo.tally (agentEnv F round cf hostIp))
      (HostInfo.Recovers (agentEnv F round cf hostIp) cf.initErrCnt)
      (HostInfo.new ip port (agentEnv F round cf hostIp).config.initSuccCnt.toUInt32 junk, t) rs := by
  have hinv : Runs.Throughout (HostInfo.tally (agentEnv F round cf hostIp))
      (fun _ s => s.1.overload = true → HostInfo.TallyOK s.1 s.2)
      (HostInfo.new ip port (agentEnv F round cf hostIp).config.initSuccCnt.toUInt32 junk, t) rs := by
    refine Runs.throughout_of_along (fun h => by cases h) ?_ hfew
    intro pre r s u hs hr hstep
    exact HostInfo.tallyOK_step rfl hs hr hstep
  intro pre r hpre s hs
  exact HostInfo.recovers_of_tally hF.mono (hF.lbFloat cf _ _) hseed
    (hinv pre ((List.prefix_append pre [r]).trans hpre) s hs) (hfew pre r hpre s hs) pre

/-- How the library reads and prints the rates below, and the `float`s of the defaults. -/
def sampleFloats : FloatText where
  f32 := fun q =>
    if q = 1 / 10 then 13421773 / 2 ^ 27
    else if q = 92 / 100 then 15435039 / 2 ^ 24
    else if q = 7 / 10 then 11744051 / 2 ^ 24
    else q
  print := fun q =>
    if q = 13421773 / 2 ^ 27 then "0.1".toList
    else if q = 15435039 / 2 ^ 24 then "0.92".toList
    else "0.7".toList
  read := fun s =>
    if s = "0.125".toList then some (1 / 8)
    else if s = "0.5".toList then some (1 / 2)
    else if s = "0.75".toList then some (3 / 4)
    else none

theorem sampleFloats_exact : sampleFloats.Exact id :=
  ⟨monotone_id, rfl, fun _ _ _ => rfl⟩

/-- A configuration without `init_err_cnt`. -/
def unseededText : List Char :=
  "[loadbalance]\ninit_succ_cnt = 0\nerr_rate = 0.125\nsucc_rate = 0.5\nwindow_err_rate = 0.75\n".toList

/-- The same with the documented seed. -/
def seededText : List Char := unseededText ++ "init_err_cnt = 5\n".toList

/-- A new host of the agent that runs on a file. -/
def newHost (cf : ConfigFile) : HostInfo × Tally :=
  (HostInfo.new 1 80 (agentEnv sampleFloats id cf 0).config.initSuccCnt.toUInt32 ⟨0, 0⟩, ⟨0, 0, 0, 0⟩)

/-- The new host after one failure, which overloads it. -/
def failedHost (cf : ConfigFile) : HostInfo × Tally :=
  (HostInfo.tally (agentEnv sampleFloats id cf 0) (newHost cf) ⟨1, 1, 4⟩).toOption.getD (newHost cf)

/-- Without a seed the first success brings the host back by the rule. -/
theorem recovers_unseeded : ∃ cf, ConfigFile.load unseededText = .ok cf ∧
    Runs.Along (HostInfo.tally (agentEnv sampleFloats id cf 0))
      (HostInfo.Recovers (agentEnv sampleFloats id cf 0) cf.initErrCnt) (newHost cf)
      [⟨1, 1, 4⟩, ⟨2, 2, 0⟩] := by
  have hzero : (ConfigFile.load unseededText).toOption.map ConfigFile.initErrCnt = some 0 := by
    decide +kernel
  obtain ⟨cf, hload, hseed⟩ := Runs.ok_of_toOption hzero
  have hfew : Runs.Along (HostInfo.tally (agentEnv sampleFloats id cf 0)) HostInfo.FewReports
      (newHost cf) [⟨1, 1, 4⟩, ⟨2, 2, 0⟩] := by
    apply fewReports_of_length
    show 0 + 0 + 2 < 2 ^ 32
    decide
  exact ⟨cf, hload, recovers_by_rule sampleFloats id sampleFloats_exact cf 0 1 80 ⟨0, 0⟩ ⟨0, 0, 0, 0⟩ _
    (Or.inl hseed) hfew⟩

/-- With `init_err_cnt = 5` the same success brings the host back, although one success
among six is below the rate and one success is no run of ten. -/
theorem recovers_fails : ∃ cf, ConfigFile.load seededText = .ok cf ∧
    ¬ Runs.Along (HostInfo.tally (agentEnv sampleFloats id cf 0))
      (HostInfo.Recovers (agentEnv sampleFloats id cf 0) cf.initErrCnt) (newHost cf)
      [⟨1, 1, 4⟩, ⟨2, 2, 0⟩] := by
  have hbad : (ConfigFile.load seededText).toOption.map (fun cf =>
      decide (HostInfo.Recovers (agentEnv sampleFloats id cf 0) cf.initErrCnt [] (failedHost cf)
        ⟨2, 2, 0⟩)) = some false := by
    decide +kernel
  obtain ⟨cf, hload, hnot⟩ := Runs.ok_of_toOption hbad
  refine ⟨cf, hload, fun h => ?_⟩
  have hsecond := (Runs.along_cons.1 ((Runs.along_cons.1 h).2 (failedHost cf) rfl)).1
  exact of_decide_eq_false hnot hsecond

end LbRpc
