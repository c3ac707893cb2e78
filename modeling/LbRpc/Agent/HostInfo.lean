import LbRpc.Proto
import Mathlib.Data.Rat.Defs
import Mathlib.Algebra.Order.Ring.Rat
import Mathlib.Tactic.Common

/-!
# One proxied host

`HostInfo` (`lb_agent/include/host_info.h`, `lb_agent/src/host_info.cpp`) and the
part of `LoadBalance::report` that only touches the reported host. The lists of the
load balancer follow the `Verdict` of that part.

Times are in seconds; each `time(NULL)` of the source is an argument. Every `long` is the integer it
holds. Where a difference of two of them may leave 64 bits it is taken with `elapsed`.
-/

namespace LbRpc

/-- `struct LBConfig` of `lb_agent/include/main_server.h`. -/
structure LBConfig where
  probeNum : Int32
  initSuccCnt : Int32
  initErrCnt : Int32
  errRate : ℚ
  succRate : ℚ
  conErrLimit : Int32
  conSuccLimit : Int32
  localIp : UInt32
  windowErrRate : ℚ
  idleTimeout : ℤ
  overloadTimeout : ℤ
  updateTimeout : ℤ

/-- What the agent's code runs with: the global `lb_config`, and how the machine
rounds the exact quotient of a `double` division. -/
structure Env where
  config : LBConfig
  round : ℚ → ℚ

/-- The values of `lb_agent/conf/lb_agent.conf`, with exact rates. `init_lb_agent` does
not load `init_err_cnt`, which stays zero. -/
def Env.shipped : Env where
  config :=
    { probeNum := 10
      initSuccCnt := 100
      initErrCnt := 0
      errRate := 1 / 10
      succRate := 1 / 2
      conErrLimit := 15
      conSuccLimit := 15
      localIp := 0x7f000001
      windowErrRate := 7 / 10
      idleTimeout := 15
      overloadTimeout := 15
      updateTimeout := 15 }
  round := id

/-- `struct HostInfo`. -/
structure HostInfo where
  ip : UInt32
  port : Int32
  vsucc : UInt32
  verr : UInt32
  rsucc : UInt32
  rerr : UInt32
  conSucc : UInt32
  conErr : UInt32
  overload : Bool
  idleTs : ℤ
  overloadTs : ℤ
  deriving DecidableEq, Repr

/-- What a block of memory holds before its first write, read as the two timestamps
that the constructor of `HostInfo` leaves alone. -/
structure Junk where
  idleTs : Int64
  overloadTs : Int64

namespace HostInfo

/-- The constructor: `idle_ts` and `overload_ts` keep what was in memory. -/
def new (ip : UInt32) (port : Int32) (initVsucc : UInt32) (junk : Junk) : HostInfo where
  ip := ip
  port := port
  vsucc := initVsucc
  verr := 0
  rsucc := 0
  rerr := 0
  conSucc := 0
  conErr := 0
  overload := false
  idleTs := junk.idleTs.toInt
  overloadTs := junk.overloadTs.toInt

/-- `now - since` of two `long`s, in 64 bits. -/
def elapsed (now since : ℤ) : ℤ := (now - since + 2 ^ 63) % 2 ^ 64 - 2 ^ 63

variable (E : Env)

/-- `HostInfo::set_idle`, with `time(NULL)` returning `ts`. -/
def setIdle (ts : ℤ) (hi : HostInfo) : HostInfo :=
  { hi with
    vsucc := E.config.initSuccCnt.toUInt32
    verr := 0
    rsucc := 0
    rerr := 0
    conSucc := 0
    conErr := 0
    overload := false
    idleTs := ts }

/-- `HostInfo::set_overload`, with `time(NULL)` returning `ts`. -/
def setOverload (ts : ℤ) (hi : HostInfo) : HostInfo :=
  { hi with
    vsucc := 0
    verr := E.config.initErrCnt.toUInt32
    rsucc := 0
    rerr := 0
    conErr := 0
    conSucc := 0
    overload := true
    overloadTs := ts }

/-- `num * 1.0 / den > limit` for `uint32_t` counters. A zero denominator gives an
infinity, or NaN over a zero numerator. -/
def rateAbove (num den : UInt32) (limit : ℚ) : Bool :=
  if den = 0 then num ≠ 0 else limit < E.round (num.toNat / den.toNat)

/-- `HostInfo::check_window`. -/
def checkWindow (hi : HostInfo) : Bool :=
  if hi.rsucc + hi.rerr = 0 then false
  else E.config.windowErrRate ≤ E.round (hi.rerr.toNat / (hi.rsucc + hi.rerr).toNat)

/-- Section 1 of `LoadBalance::report`: the counters. -/
def count (retcode : Int32) (hi : HostInfo) : HostInfo :=
  if retcode = RetCode.succ.toInt32 then
    { hi with vsucc := hi.vsucc + 1, rsucc := hi.rsucc + 1, conSucc := hi.conSucc + 1, conErr := 0 }
  else
    { hi with verr := hi.verr + 1, rerr := hi.rerr + 1, conErr := hi.conErr + 1, conSucc := 0 }

@[simp] theorem count_overload (rc : Int32) (hi : HostInfo) : (hi.count rc).overload = hi.overload := by
  unfold count; split <;> rfl

@[simp] theorem count_idleTs (rc : Int32) (hi : HostInfo) : (hi.count rc).idleTs = hi.idleTs := by
  unfold count; split <;> rfl

@[simp] theorem count_overloadTs (rc : Int32) (hi : HostInfo) :
    (hi.count rc).overloadTs = hi.overloadTs := by
  unfold count; split <;> rfl

/-- A counter that is not at its maximum counts up. -/
theorem toNat_add_one {c : UInt32} (h : c.toNat + 1 < 2 ^ 32) : (c + 1).toNat = c.toNat + 1 := by
  rw [UInt32.toNat_add]
  exact Nat.mod_eq_of_lt h

/-- A positive limit is the same number as an `int` and as a `uint32_t`. -/
theorem toNat_limit {c : Int32} (h : 1 ≤ c) : (c.toUInt32.toNat : ℤ) = c.toInt := by
  have h0 : 0 ≤ c := Int32.le_trans (by decide) h
  rw [Int32.toNat_toUInt32_of_le h0, Int32.toInt_eq_toNatClampNeg h0]

/-- Does an idle host meet the condition to be overloaded? -/
def reachesOverload (hi : HostInfo) : Bool :=
  rateAbove E hi.verr (hi.vsucc + hi.verr) E.config.errRate ||
    decide (E.config.conErrLimit.toUInt32 ≤ hi.conErr)

/-- Does an overloaded host meet the condition to be idle again? -/
def reachesIdle (hi : HostInfo) : Bool :=
  rateAbove E hi.vsucc (hi.vsucc + hi.verr) E.config.succRate ||
    decide (E.config.conSuccLimit.toUInt32 ≤ hi.conSucc)

/-- What one report did to its host. The first two return early in the source; each
one but `stay` and `windowReset` prints a line there. -/
inductive Verdict
  | toOverload
  | toIdle
  | windowOverload
  | windowReset
  | timeoutIdle
  | stay
  deriving DecidableEq, Repr

/-- The verdict went through `set_idle`. -/
def Verdict.setsIdle : Verdict → Bool
  | .toIdle | .windowReset | .timeoutIdle => true
  | _ => false

/-- The verdict went through `set_overload`. -/
def Verdict.setsOverload : Verdict → Bool
  | .toOverload | .windowOverload => true
  | _ => false

/-- The verdict closed the statistics window. -/
def Verdict.closesWindow : Verdict → Bool
  | .windowOverload | .windowReset => true
  | _ => false

/-- The window and timeout part at the end of `LoadBalance::report`. -/
def checkTimes (currentTime ts : ℤ) (hi : HostInfo) : HostInfo × Verdict :=
  if hi.overload = false then
    -- `idle_ts` may still be what the memory held
    if E.config.idleTimeout ≤ elapsed currentTime hi.idleTs then
      if hi.checkWindow E then (hi.setOverload E ts, .windowOverload)
      else (hi.setIdle E ts, .windowReset)
    else (hi, .stay)
  else
    -- `overload_ts` is a time that the clock has shown, since the host is overloaded
    if E.config.overloadTimeout ≤ currentTime - hi.overloadTs then (hi.setIdle E ts, .timeoutIdle)
    else (hi, .stay)

/-- The reported host's part of `LoadBalance::report`. `currentTime` is the clock at
entry; `ts` is the clock when `set_idle` or `set_overload` reads it. -/
def report (currentTime ts : ℤ) (retcode : Int32) (hi : HostInfo) : HostInfo × Verdict :=
  let hi := hi.count retcode
  -- an idle host can only get worse by a failure, an overloaded one better by a success;
  -- the two early returns skip the window and the timeout
  if hi.overload = false ∧ retcode ≠ RetCode.succ.toInt32 then
    if hi.reachesOverload E then (hi.setOverload E ts, .toOverload)
    else hi.checkTimes E currentTime ts
  else if hi.overload = true ∧ retcode = RetCode.succ.toInt32 then
    if hi.reachesIdle E then (hi.setIdle E ts, .toIdle)
    else hi.checkTimes E currentTime ts
  else hi.checkTimes E currentTime ts

/-- **What one report can do to its host**, branch by branch. -/
inductive Reported (currentTime ts : ℤ) (retcode : Int32) (hi : HostInfo) : HostInfo → Verdict → Prop
  | toOverload : hi.overload = false → retcode ≠ RetCode.succ.toInt32 →
      (hi.count retcode).reachesOverload E = true →
      Reported currentTime ts retcode hi ((hi.count retcode).setOverload E ts) .toOverload
  | toIdle : hi.overload = true → retcode = RetCode.succ.toInt32 →
      (hi.count retcode).reachesIdle E = true →
      Reported currentTime ts retcode hi ((hi.count retcode).setIdle E ts) .toIdle
  | windowOverload : hi.overload = false →
      (retcode ≠ RetCode.succ.toInt32 → (hi.count retcode).reachesOverload E = false) →
      E.config.idleTimeout ≤ elapsed currentTime hi.idleTs → (hi.count retcode).checkWindow E = true →
      Reported currentTime ts retcode hi ((hi.count retcode).setOverload E ts) .windowOverload
  | windowReset : hi.overload = false →
      (retcode ≠ RetCode.succ.toInt32 → (hi.count retcode).reachesOverload E = false) →
      E.config.idleTimeout ≤ elapsed currentTime hi.idleTs → (hi.count retcode).checkWindow E = false →
      Reported currentTime ts retcode hi ((hi.count retcode).setIdle E ts) .windowReset
  | timeoutIdle : hi.overload = true →
      (retcode = RetCode.succ.toInt32 → (hi.count retcode).reachesIdle E = false) →
      E.config.overloadTimeout ≤ currentTime - hi.overloadTs →
      Reported currentTime ts retcode hi ((hi.count retcode).setIdle E ts) .timeoutIdle
  | stayIdle : hi.overload = false →
      (retcode ≠ RetCode.succ.toInt32 → (hi.count retcode).reachesOverload E = false) →
      elapsed currentTime hi.idleTs < E.config.idleTimeout →
      Reported currentTime ts retcode hi (hi.count retcode) .stay
  | stayOverload : hi.overload = true →
      (retcode = RetCode.succ.toInt32 → (hi.count retcode).reachesIdle E = false) →
      currentTime - hi.overloadTs < E.config.overloadTimeout →
      Reported currentTime ts retcode hi (hi.count retcode) .stay

/-- The idle half of the window and timeout part. -/
theorem reported_checkTimes_idle {currentTime ts : ℤ} {rc : Int32} {hi : HostInfo}
    (ho : hi.overload = false)
    (hr : rc ≠ RetCode.succ.toInt32 → (hi.count rc).reachesOverload E = false) :
    Reported E currentTime ts rc hi ((hi.count rc).checkTimes E currentTime ts).1
      ((hi.count rc).checkTimes E currentTime ts).2 := by
  unfold checkTimes
  rw [if_pos (by simpa using ho), count_idleTs]
  split
  · rename_i ht
    split
    · rename_i hw; exact .windowOverload ho hr ht hw
    · rename_i hw; exact .windowReset ho hr ht (by simpa using hw)
  · rename_i ht; exact .stayIdle ho hr (by omega)

/-- The overload half of the window and timeout part. -/
theorem reported_checkTimes_overload {currentTime ts : ℤ} {rc : Int32} {hi : HostInfo}
    (ho : hi.overload = true)
    (hr : rc = RetCode.succ.toInt32 → (hi.count rc).reachesIdle E = false) :
    Reported E currentTime ts rc hi ((hi.count rc).checkTimes E currentTime ts).1
      ((hi.count rc).checkTimes E currentTime ts).2 := by
  unfold checkTimes
  rw [if_neg (by simp [ho]), count_overloadTs]
  split
  · rename_i ht; exact .timeoutIdle ho hr ht
  · rename_i ht; exact .stayOverload ho hr (by omega)

theorem reported (currentTime ts : ℤ) (rc : Int32) (hi : HostInfo) :
    Reported E currentTime ts rc hi (hi.report E currentTime ts rc).1
      (hi.report E currentTime ts rc).2 := by
  unfold report
  simp only [count_overload]
  split
  · rename_i h
    split
    · rename_i hr; exact .toOverload h.1 h.2 hr
    · rename_i hr; exact reported_checkTimes_idle E h.1 (fun _ => by simpa using hr)
  · rename_i h
    split
    · rename_i h'
      split
      · rename_i hr; exact .toIdle h'.1 h'.2 hr
      · rename_i hr; exact reported_checkTimes_overload E h'.1 (fun _ => by simpa using hr)
    · rename_i h'
      -- a success of an idle host, or a failure of an overloaded one
      cases ho : hi.overload with
      | false => exact reported_checkTimes_idle E ho (fun hne => absurd ⟨ho, hne⟩ h)
      | true => exact reported_checkTimes_overload E ho (fun he => absurd ⟨ho, he⟩ h')

end HostInfo

end LbRpc
