import LbRpc.Proof.HostRun

/-!
# The statistics window of an idle host

A window starts when the host is made and whenever it is set idle. `track` runs a host
together with that start.

* `Closes`: a report that finds an idle host and does not overload it by its rate or its
  consecutive errors closes the window exactly when `idle_timeout` has passed.
* `window_law_iff`: this holds of every report of every run **exactly when** the
  memory under the constructor read the creation time as `idle_ts`, or `idle_timeout`
  is not positive and the memory read a time `Past`.
-/

namespace LbRpc

namespace HostInfo

variable {E : Env} {hi : HostInfo}

/-- One report, with the start of the window: the creation, or the last `set_idle`. -/
def track (E : Env) (s : HostInfo × ℤ) (r : Report) : Except Fault (HostInfo × ℤ) :=
  let p := s.1.report E r.currentTime r.ts r.retcode
  .ok (p.1, if p.2.setsIdle then r.ts else s.2)

/-- The window closes on time. -/
def Closes (E : Env) (_ : List Report) (s : HostInfo × ℤ) (r : Report) : Prop :=
  s.1.overload = false → (s.1.report E r.currentTime r.ts r.retcode).2 ≠ .toOverload →
    ((s.1.report E r.currentTime r.ts r.retcode).2.closesWindow = true ↔
      E.config.idleTimeout ≤ r.currentTime - s.2)

/-- What the code compares with the timeout is `idle_ts`. -/
theorem closesWindow_iff {now ts : ℤ} {rc : Int32} (hidle : hi.overload = false)
    (hne : (hi.report E now ts rc).2 ≠ .toOverload) :
    (hi.report E now ts rc).2.closesWindow = true ↔
      E.config.idleTimeout ≤ elapsed now hi.idleTs := by
  have hrep := hi.reported E now ts rc
  generalize (hi.report E now ts rc).1 = hi' at hrep
  generalize (hi.report E now ts rc).2 = v at hrep hne ⊢
  rcases hrep with ⟨-, -, -⟩ | ⟨ho, -, -⟩ | ⟨-, -, ht, -⟩ | ⟨-, -, ht, -⟩ | ⟨ho, -, -⟩ |
    ⟨-, -, ht⟩ | ⟨ho, -, -⟩
  · exact absurd rfl hne
  · rw [hidle] at ho; cases ho
  · exact ⟨fun _ => ht, fun _ => rfl⟩
  · exact ⟨fun _ => ht, fun _ => rfl⟩
  · rw [hidle] at ho; cases ho
  · have hnot : ¬ E.config.idleTimeout ≤ elapsed now hi.idleTs := by omega
    exact ⟨fun h => (by cases h), fun h => absurd h hnot⟩
  · rw [hidle] at ho; cases ho

/-- `idle_ts` is written where a host is set idle, and nowhere else. -/
theorem report_idleTs (now ts : ℤ) (rc : Int32) :
    (hi.report E now ts rc).1.idleTs =
      if (hi.report E now ts rc).2.setsIdle then ts else hi.idleTs := by
  have hrep := hi.reported E now ts rc
  generalize (hi.report E now ts rc).1 = hi' at hrep ⊢
  generalize (hi.report E now ts rc).2 = v at hrep ⊢
  rcases hrep with ⟨-, -, -⟩ | ⟨-, -, -⟩ | ⟨-, -, -, -⟩ | ⟨-, -, -, -⟩ | ⟨-, -, -⟩ |
    ⟨-, -, -⟩ | ⟨-, -, -⟩
  · exact count_idleTs rc hi
  · rfl
  · exact count_idleTs rc hi
  · rfl
  · rfl
  · exact count_idleTs rc hi
  · exact count_idleTs rc hi

/-- The clock is a `time_t`. -/
def Readable (rs : List Report) : Prop := ∀ r ∈ rs, r.ts < 2 ^ 63

/-- A time `g` that keeps no window open at time `c` or later, where the timeout `T` is not positive:
`T` has passed, and the difference does not leave 64 bits later, since `g` is no negative number
or it has left them already. -/
def Past (T c g : ℤ) : Prop := T ≤ elapsed c g ∧ (0 ≤ g ∨ 2 ^ 63 ≤ c - g ∨ T ≤ -2 ^ 63)

-- `LONG_MIN` is not past, though a timeout of zero is over at once
example : ¬ Past 0 1000 (-2 ^ 63) := by
  unfold Past elapsed
  omega

/-- A difference that fits is the difference. -/
theorem elapsed_eq {now since : ℤ} (h0 : 0 ≤ since) (h : since < 2 ^ 63) (hn0 : 0 ≤ now) (hn : now < 2 ^ 63) :
    elapsed now since = now - since := by
  unfold elapsed
  omega

/-- What is `Past` stays so. -/
theorem Past.mono {T c g t : ℤ} (h : Past T c g) (hg : -2 ^ 63 ≤ g) (hg' : g < 2 ^ 63) (hc : 0 ≤ c)
    (hct : c ≤ t) (ht : t < 2 ^ 63) : Past T t g := by
  obtain ⟨hnow, hlater⟩ := h
  unfold Past
  unfold elapsed at hnow ⊢
  rcases hlater with h | h | h
  · exact ⟨by omega, Or.inl h⟩
  · exact ⟨by omega, Or.inr (Or.inl (by omega))⟩
  · exact ⟨by omega, Or.inr (Or.inr h)⟩

/-- `idle_ts` is the start of the window, or neither can keep a window open at time `c`. -/
structure StartOK (E : Env) (c : ℤ) (s : HostInfo × ℤ) : Prop where
  start : 0 ≤ s.2 ∧ s.2 ≤ c
  fits : -2 ^ 63 ≤ s.1.idleTs ∧ s.1.idleTs < 2 ^ 63
  agrees : s.1.idleTs = s.2 ∨ (E.config.idleTimeout ≤ 0 ∧ Past E.config.idleTimeout c s.1.idleTs)

/-- A start that is good stays good while the clock goes on. -/
theorem StartOK.later {c t : ℤ} {s : HostInfo × ℤ} (h : StartOK E c s) (hc : c ≤ t) (ht : t < 2 ^ 63) :
    StartOK E t s := by
  obtain ⟨⟨h0, hw⟩, ⟨hg, hg'⟩, hagree⟩ := h
  refine ⟨⟨h0, by omega⟩, ⟨hg, hg'⟩, ?_⟩
  rcases hagree with heq | ⟨hT, hpast⟩
  · exact Or.inl heq
  · exact Or.inr ⟨hT, hpast.mono hg hg' (by omega) hc ht⟩

theorem StartOK.closes {c : ℤ} {s : HostInfo × ℤ} (h : StartOK E c s) {r : Report}
    (hc : c ≤ r.currentTime) (ht : r.currentTime < 2 ^ 63) (pre : List Report) : Closes E pre s r := by
  intro hidle hne
  rw [closesWindow_iff hidle hne]
  obtain ⟨⟨h0, hw⟩, -, hagree⟩ := h.later hc ht
  rcases hagree with heq | ⟨hT, hpast, -⟩
  · rw [heq, elapsed_eq h0 (by omega) (by omega) ht]
  · constructor
    · intro; omega
    · intro; exact hpast

theorem StartOK.track {c : ℤ} {s t : HostInfo × ℤ} (h : StartOK E c s) {r : Report}
    (hc : c ≤ r.ts) (hts : r.ts < 2 ^ 63) (hs : track E s r = .ok t) : StartOK E r.ts t := by
  cases hs
  obtain ⟨⟨h0, hw⟩, ⟨hg, hg'⟩, hagree⟩ := h.later hc hts
  have hidle : (s.1.report E r.currentTime r.ts r.retcode).1.idleTs =
      if (s.1.report E r.currentTime r.ts r.retcode).2.setsIdle then r.ts else s.1.idleTs :=
    report_idleTs r.currentTime r.ts r.retcode
  rcases hset : (s.1.report E r.currentTime r.ts r.retcode).2.setsIdle with _ | _
  · -- neither start moves, and the clock does not go back
    rw [hset] at hidle
    refine ⟨⟨h0, hw⟩, ?_, ?_⟩
    · simp only [hidle]
      exact ⟨hg, hg'⟩
    · simp only [hidle]
      exact hagree
  · rw [hset] at hidle
    refine ⟨⟨by omega, le_rfl⟩, ?_, ?_⟩
    · simp only [hidle]
      exact ⟨by omega, hts⟩
    · simp only [hidle]
      exact Or.inl rfl

/-- **From a good start every window closes on time.** -/
theorem closes_of_start : ∀ (rs : List Report) (c : ℤ) (s : HostInfo × ℤ), Clocked c rs →
    Readable rs → StartOK E c s → Runs.Along (track E) (Closes E) s rs := by
  intro rs
  induction rs with
  | nil => exact fun _ _ _ _ _ => Runs.along_nil
  | cons r rs ih =>
    rintro c s ⟨hc, hts, hrest⟩ hread h
    have hr : r.ts < 2 ^ 63 := hread r List.mem_cons_self
    refine Runs.along_cons.2 ⟨h.closes hc (by omega) [], fun t ht => ?_⟩
    exact ih r.ts t hrest (fun x hx => hread x (List.mem_cons_of_mem r hx)) (h.track (by omega) hr ht)

/-- A success that reaches a new host at time `t` closes the window by what the memory
under the constructor held. -/
theorem closes_first {ip : UInt32} {port : Int32} {junk : Junk} {c t : ℤ}
    (h : Closes E [] (new ip port E.config.initSuccCnt.toUInt32 junk, c) ⟨t, t, RetCode.succ.toInt32⟩) :
    E.config.idleTimeout ≤ elapsed t junk.idleTs.toInt ↔ E.config.idleTimeout ≤ t - c := by
  set hi := new ip port E.config.initSuccCnt.toUInt32 junk with hhi
  have hne : (hi.report E t t RetCode.succ.toInt32).2 ≠ .toOverload := by
    have hrep := hi.reported E t t RetCode.succ.toInt32
    generalize (hi.report E t t RetCode.succ.toInt32).1 = hi' at hrep
    intro hv
    rw [hv] at hrep
    rcases hrep with ⟨-, hrc, -⟩
    exact hrc rfl
  have hidle : hi.overload = false := rfl
  have hcode : _ ↔ E.config.idleTimeout ≤ elapsed t hi.idleTs := closesWindow_iff hidle hne
  exact hcode.symm.trans (h rfl hne)

/-- The times at which a first success may come. -/
theorem closes_at {ip : UInt32} {port : Int32} {junk : Junk} {c : ℤ}
    (hall : ∀ rs, Clocked c rs → Readable rs → Runs.Along (track E) (Closes E)
      (new ip port E.config.initSuccCnt.toUInt32 junk, c) rs) {t : ℤ} (hct : c ≤ t) (ht : t < 2 ^ 63) :
    E.config.idleTimeout ≤ elapsed t junk.idleTs.toInt ↔ E.config.idleTimeout ≤ t - c := by
  have hrun := hall [⟨t, t, RetCode.succ.toInt32⟩] ⟨hct, le_rfl, trivial⟩ (by
    intro r hr
    rw [List.mem_singleton.1 hr]
    exact ht)
  exact closes_first (Runs.along_cons.1 hrun).1

/-- **The statistics window over every run of a host.** For a host made at time `c` over
memory that read `junk`, under every sequence of reports with a clock that does not go
back, each window closes when it should, if and only if the memory read the creation
time, or the timeout is not positive and the memory read a time that keeps no window open. The
clock has room for the first window. -/
theorem window_law_iff (E : Env) (ip : UInt32) (port : Int32) (junk : Junk) {c : ℤ} (h0 : 0 ≤ c)
    (hc : c < 2 ^ 63) (hroom : c + E.config.idleTimeout < 2 ^ 63) :
    (∀ rs, Clocked c rs → Readable rs → Runs.Along (track E) (Closes E)
      (new ip port E.config.initSuccCnt.toUInt32 junk, c) rs) ↔
    junk.idleTs.toInt = c ∨
      (E.config.idleTimeout ≤ 0 ∧ Past E.config.idleTimeout c junk.idleTs.toInt) := by
  have hg : -2 ^ 63 ≤ junk.idleTs.toInt := Int64.le_toInt _
  have hg' : junk.idleTs.toInt < 2 ^ 63 := Int64.toInt_lt _
  constructor
  · intro hall
    by_cases hT : 1 ≤ E.config.idleTimeout
    · -- one second before the window is over, and when it is
      have hbefore := closes_at hall (t := c + E.config.idleTimeout - 1) (by omega) (by omega)
      have hat := closes_at hall (t := c + E.config.idleTimeout) (by omega) hroom
      unfold elapsed at hbefore hat
      exact Or.inl (by omega)
    · -- a timeout that is not positive is over at once; a negative time must not leave 64 bits later
      have hat := closes_at hall le_rfl hc
      refine Or.inr ⟨by omega, by omega, ?_⟩
      by_cases hneg : 0 ≤ junk.idleTs.toInt
      · exact Or.inl hneg
      · by_cases hfar : 2 ^ 63 ≤ c - junk.idleTs.toInt
        · exact Or.inr (Or.inl hfar)
        · have hlast := closes_at hall (t := 2 ^ 63 + junk.idleTs.toInt) (by omega) (by omega)
          unfold elapsed at hlast
          exact Or.inr (Or.inr (by omega))
  · intro h rs hrs hread
    exact closes_of_start rs c _ hrs hread ⟨⟨h0, le_rfl⟩, ⟨hg, hg'⟩, h⟩

/-- Memory that read the creation time, and a timeout of fifteen seconds: a report inside the first
window, and one at its end. -/
theorem window_law_iff_set :
    Runs.Along (track Env.shipped) (Closes Env.shipped)
      (new 1 80 Env.shipped.config.initSuccCnt.toUInt32 ⟨1000, 0⟩, 1000) [⟨1014, 1014, 0⟩, ⟨1015, 1015, 0⟩] := by
  have hlaw := (window_law_iff Env.shipped 1 80 ⟨1000, 0⟩ (c := 1000) (by decide) (by decide) (by decide)).2
    (Or.inl (by decide))
  refine hlaw _ ⟨by decide, by decide, by decide, by decide, trivial⟩ fun r hr => ?_
  have hcases : r = ⟨1014, 1014, 0⟩ ∨ r = ⟨1015, 1015, 0⟩ := by simpa using hr
  rcases hcases with rfl | rfl
  · decide
  · decide

/-- A host made at time 1000 over zeroed memory: its first report closes the window. -/
theorem window_law_fails :
    ¬ ∀ rs, Clocked 1000 rs → Readable rs → Runs.Along (track Env.shipped) (Closes Env.shipped)
      (new 1 80 Env.shipped.config.initSuccCnt.toUInt32 ⟨0, 0⟩, 1000) rs := by
  intro hall
  exact absurd (closes_at hall (t := 1000) le_rfl (by decide)) (by decide)

end HostInfo

end LbRpc
