import LbRpc.Dns.Service
import Mathlib.Tactic.Ring

/-!
# Packing two ints into a key

`key` sign-extends both halves and adds them, so a negative lower half borrows from the
upper one.

* `keyLo_key`, `keyHi_key`: what comes out of a key; the lower half is right, the upper
  half one too small where the lower half is negative.
* `key_inj`: distinct pairs have distinct keys.
* `push_names_pair_iff`: a push names the subscribed pair exactly for `0 ≤ cmdid`.
-/

namespace LbRpc

theorem toUInt64_toNat (x : Int64) : (x.toUInt64.toNat : ℤ) = x.toInt % 2 ^ 64 := by
  have hlt : x.toUInt64.toNat < 2 ^ 64 := x.toUInt64.toNat_lt
  have h : x.toInt = if 2 * x.toUInt64.toNat < 2 ^ 64 then (x.toUInt64.toNat : ℤ)
      else (x.toUInt64.toNat : ℤ) - (2 ^ 64 : ℕ) := BitVec.toInt_eq_toNat_cond x.toBitVec
  split at h <;> omega

theorem toInt32_toInt (x : UInt32) :
    x.toInt32.toInt = if x.toNat < 2 ^ 31 then (x.toNat : ℤ) else x.toNat - 2 ^ 32 := by
  have h : x.toInt32.toInt = if 2 * x.toNat < 2 ^ 32 then (x.toNat : ℤ)
      else (x.toNat : ℤ) - (2 ^ 32 : ℕ) := BitVec.toInt_eq_toNat_cond x.toBitVec
  split at h <;> split <;> omega

/-- A key as a number. -/
theorem key_toNat (hi lo : Int32) :
    ((key hi lo).toNat : ℤ) = (hi.toInt * 2 ^ 32 + lo.toInt) % 2 ^ 64 := by
  have hhi := toUInt64_toNat hi.toInt64
  have hlo := toUInt64_toNat lo.toInt64
  rw [Int32.toInt_toInt64] at hhi hlo
  have h32 : (32 : UInt64).toNat % 64 = 32 := rfl
  simp only [key, UInt64.toNat_add, UInt64.toNat_shiftLeft, Nat.shiftLeft_eq, h32]
  omega

theorem keyHi_toInt (k : UInt64) : (keyHi k).toInt =
    if k.toNat / 2 ^ 32 < 2 ^ 31 then (k.toNat / 2 ^ 32 : ℤ) else k.toNat / 2 ^ 32 - 2 ^ 32 := by
  have h32 : (32 : UInt64).toNat % 64 = 32 := rfl
  have hk : k.toNat < 2 ^ 64 := k.toNat_lt
  have hhi : (k >>> 32).toUInt32.toNat = k.toNat / 2 ^ 32 := by
    rw [UInt64.toNat_toUInt32, UInt64.toNat_shiftRight, h32, Nat.shiftRight_eq_div_pow]
    omega
  rw [keyHi, toInt32_toInt, hhi]
  norm_cast

theorem keyLo_toInt (k : UInt64) : (keyLo k).toInt =
    if k.toNat % 2 ^ 32 < 2 ^ 31 then (k.toNat % 2 ^ 32 : ℤ) else k.toNat % 2 ^ 32 - 2 ^ 32 := by
  rw [keyLo, toInt32_toInt, UInt64.toNat_toUInt32]
  norm_cast

theorem int32_bounds (x : Int32) : -2 ^ 31 ≤ x.toInt ∧ x.toInt < 2 ^ 31 :=
  ⟨x.le_toInt, x.toInt_lt⟩

/-- **The lower half comes out as it went in.** -/
theorem keyLo_key (hi lo : Int32) : keyLo (key hi lo) = lo := by
  have hk := key_toNat hi lo
  have hlo := int32_bounds lo
  apply Int32.toInt_inj.1
  rw [keyLo_toInt]
  split <;> omega

/-- **The upper half loses one to a negative lower half.** -/
theorem keyHi_key (hi lo : Int32) : keyHi (key hi lo) = if 0 ≤ lo then hi else hi - 1 := by
  have hk := key_toNat hi lo
  have hlo := int32_bounds lo
  have hhi := int32_bounds hi
  have hneg : 0 ≤ lo ↔ 0 ≤ lo.toInt := Int32.le_iff_toInt_le
  apply Int32.toInt_inj.1
  by_cases h0 : 0 ≤ lo
  · rw [if_pos h0, keyHi_toInt]
    rw [hneg] at h0
    split <;> omega
  · have h1 : (1 : Int32).toInt = 1 := rfl
    rw [if_neg h0, keyHi_toInt, Int32.toInt_sub, Int.bmod_def, h1]
    rw [hneg] at h0
    split <;> split <;> omega

/-- **Distinct pairs have distinct keys.** -/
theorem key_inj {hi lo hi' lo' : Int32} (h : key hi lo = key hi' lo') : hi = hi' ∧ lo = lo' := by
  have hl : lo = lo' := by rw [← keyLo_key hi lo, h, keyLo_key]
  subst hl
  have hk := key_toNat hi lo
  have hk' := key_toNat hi' lo
  have hb := int32_bounds hi
  have hb' := int32_bounds hi'
  rw [h] at hk
  refine ⟨Int32.toInt_inj.1 ?_, rfl⟩
  omega

theorem subscribeKey_inj {req req' : Lbrss.GetRouteRequest}
    (h : subscribeKey req' = subscribeKey req) : req' = req := by
  obtain ⟨modid, cmdid⟩ := req
  obtain ⟨modid', cmdid'⟩ := req'
  obtain ⟨rfl, rfl⟩ := key_inj h
  rfl

/-- What a push makes of a subscribed pair. -/
theorem pushPair_subscribeKey (req : Lbrss.GetRouteRequest) : pushPair (subscribeKey req) =
    (if 0 ≤ req.cmdid then req.modid else req.modid - 1, req.cmdid) := by
  rw [pushPair, subscribeKey, keyHi_key, keyLo_key]

theorem sub_one_ne (x : Int32) : x - 1 ≠ x := by
  intro h
  have hx := congrArg Int32.toInt h
  have h1 : (1 : Int32).toInt = 1 := rfl
  have hb := int32_bounds x
  rw [Int32.toInt_sub, Int.bmod_def, h1] at hx
  split at hx <;> omega

/-- **A push names the subscribed pair and finds its routes exactly for `0 ≤ cmdid`.** That
distinct pairs have distinct keys holds for all. -/
theorem push_names_pair_iff (req : Lbrss.GetRouteRequest) :
    (pushPair (subscribeKey req) = (req.modid, req.cmdid) ∧
      (∀ r : Route, pushHosts (subscribeKey req) r = r.hostsUnder (subscribeKey req)) ∧
      ∀ req', subscribeKey req' = subscribeKey req → req' = req) ↔ 0 ≤ req.cmdid := by
  rw [pushPair_subscribeKey]
  constructor
  · rintro ⟨hpair, -, -⟩
    by_contra h0
    rw [if_neg h0] at hpair
    exact sub_one_ne req.modid (congrArg Prod.fst hpair)
  · intro h0
    refine ⟨by rw [if_pos h0], fun r => ?_, fun req' h => subscribeKey_inj h⟩
    rw [pushHosts, pushPair_subscribeKey, if_pos h0]
    rfl

/-- The subscriber of (1, -1) is sent the routes of (0, -1). -/
theorem push_names_pair_fails :
    ¬∀ req : Lbrss.GetRouteRequest, pushPair (subscribeKey req) = (req.modid, req.cmdid) ∧
      (∀ r : Route, pushHosts (subscribeKey req) r = r.hostsUnder (subscribeKey req)) ∧
      ∀ req', subscribeKey req' = subscribeKey req → req' = req := by
  intro h
  have hpair := (h ⟨1, -1⟩).1
  exact absurd hpair (by decide)

end LbRpc
