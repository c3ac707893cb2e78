import Mathlib.Algebra.Group.Nat.Defs
import Mathlib.Data.Nat.Notation
import Mathlib.Tactic.Common

/-!
# IPv4 addresses as text and as numbers

A `Quad` is the four bytes of an address, in the order in which they are written.

* `parse_text`, `text_inj`: the dotted text of an address, read back.
* `ofBig_toBig`: the number with the first byte on top.
* `ofLittle_toBig`: a number made with the first byte on top, taken apart with the
  first byte at the bottom, is the address backwards.
-/

namespace Ipv4

structure Quad where
  a : UInt8
  b : UInt8
  c : UInt8
  d : UInt8
  deriving DecidableEq, Repr

/-- A byte in decimal. -/
def decimal (x : UInt8) : List Char := Nat.toDigits 10 x.toNat

/-- The dotted text of an address. -/
def Quad.text (q : Quad) : List Char :=
  ['.'].intercalate [decimal q.a, decimal q.b, decimal q.c, decimal q.d]

/-- The number that a string of digits stands for. -/
def value (s : List Char) : ℕ := s.foldl (fun n c => 10 * n + (c.toNat - 48)) 0

/-- One field of a dotted text: digits without a leading zero, at most 255. -/
def parseOctet (s : List Char) : Option UInt8 :=
  if s ≠ [] ∧ s.all Char.isDigit ∧ (s.head? = some '0' → s.length = 1) ∧ value s ≤ 255 then
    some (UInt8.ofNat (value s))
  else none

/-- Read a dotted text. -/
def parse (s : List Char) : Option Quad :=
  match s.splitOn '.' with
  | [a, b, c, d] => do return ⟨← parseOctet a, ← parseOctet b, ← parseOctet c, ← parseOctet d⟩
  | _ => none

theorem parseOctet_decimal (x : UInt8) : parseOctet (decimal x) = some x := by
  have h : ∀ n : Fin 256, parseOctet (decimal (UInt8.ofNat n)) = some (UInt8.ofNat n) := by
    decide +kernel
  simpa using h ⟨x.toNat, x.toNat_lt⟩

theorem dot_notMem_decimal (x : UInt8) : '.' ∉ decimal x := by
  have h : ∀ n : Fin 256, '.' ∉ decimal (UInt8.ofNat n) := by decide +kernel
  simpa using h ⟨x.toNat, x.toNat_lt⟩

/-- **What was written is read back.** -/
theorem parse_text (q : Quad) : parse q.text = some q := by
  have hsplit : q.text.splitOn '.' = [decimal q.a, decimal q.b, decimal q.c, decimal q.d] := by
    apply List.splitOn_intercalate
    · intro l hl
      simp only [List.mem_cons, List.not_mem_nil, or_false] at hl
      rcases hl with rfl | rfl | rfl | rfl <;> exact dot_notMem_decimal _
    · simp
  simp only [parse, hsplit, parseOctet_decimal]
  rfl

theorem text_inj {p q : Quad} (h : p.text = q.text) : p = q := by
  have hp := parse_text p
  rw [h, parse_text q] at hp
  exact (Option.some.inj hp).symm

/-- The number with the first byte on top. -/
def Quad.toBig (q : Quad) : ℕ := ((q.a.toNat * 256 + q.b.toNat) * 256 + q.c.toNat) * 256 + q.d.toNat

/-- The address with the first byte on top of the number. -/
def ofBig (x : UInt32) : Quad := ⟨(x >>> 24).toUInt8, (x >>> 16).toUInt8, (x >>> 8).toUInt8, x.toUInt8⟩

/-- The address with the first byte at the bottom of the number. -/
def ofLittle (x : UInt32) : Quad := ⟨x.toUInt8, (x >>> 8).toUInt8, (x >>> 16).toUInt8, (x >>> 24).toUInt8⟩

/-- The bytes in the other order. -/
def Quad.reverse (q : Quad) : Quad := ⟨q.d, q.c, q.b, q.a⟩

theorem ofLittle_eq (x : UInt32) : ofLittle x = (ofBig x).reverse := rfl

theorem ofBig_eq (x : UInt32) : ofBig x = (ofLittle x).reverse := rfl

theorem Quad.toBig_lt (q : Quad) : q.toBig < 2 ^ 32 := by
  have ha := q.a.toNat_lt
  have hb := q.b.toNat_lt
  have hc := q.c.toNat_lt
  have hd := q.d.toNat_lt
  unfold Quad.toBig
  omega

theorem toUInt8_toNat (x : UInt32) : x.toUInt8.toNat = x.toNat % 256 := UInt32.toNat_toUInt8 x

theorem shift_toNat (x : UInt32) : (x >>> 24).toNat = x.toNat / 2 ^ 24 ∧
    (x >>> 16).toNat = x.toNat / 2 ^ 16 ∧ (x >>> 8).toNat = x.toNat / 2 ^ 8 := by
  have h24 : (24 : UInt32).toNat % 32 = 24 := rfl
  have h16 : (16 : UInt32).toNat % 32 = 16 := rfl
  have h8 : (8 : UInt32).toNat % 32 = 8 := rfl
  simp only [UInt32.toNat_shiftRight, Nat.shiftRight_eq_div_pow, h24, h16, h8, and_self]

theorem ofBig_eq_iff {x : UInt32} {q : Quad} : ofBig x = q ↔ x.toNat = q.toBig := by
  obtain ⟨a, b, c, d⟩ := q
  obtain ⟨h24, h16, h8⟩ := shift_toNat x
  have hx : x.toNat < 2 ^ 32 := x.toNat_lt
  have ha := a.toNat_lt
  have hb := b.toNat_lt
  have hc := c.toNat_lt
  have hd := d.toNat_lt
  simp only [ofBig, Quad.toBig, Quad.mk.injEq, ← UInt8.toNat_inj, toUInt8_toNat, h24, h16, h8]
  omega

theorem toBig_toNat (q : Quad) : (UInt32.ofNat q.toBig).toNat = q.toBig :=
  UInt32.toNat_ofNat_of_lt' q.toBig_lt

/-- The number with the first byte on top, taken apart that way. -/
theorem ofBig_toBig (q : Quad) : ofBig (UInt32.ofNat q.toBig) = q := ofBig_eq_iff.2 (toBig_toNat q)

/-- **Taken apart the other way, the address comes out backwards.** -/
theorem ofLittle_toBig (q : Quad) : ofLittle (UInt32.ofNat q.toBig) = q.reverse := by
  rw [ofLittle_eq, ofBig_toBig]

theorem reverse_eq_iff {q : Quad} : q.reverse = q ↔ q.a = q.d ∧ q.b = q.c := by
  obtain ⟨a, b, c, d⟩ := q
  simp only [Quad.reverse, Quad.mk.injEq]
  grind

/-- An address and its reverse have the same digit sum, and 256 is 1 modulo 255. -/
theorem reverse_mod (q : Quad) : q.reverse.toBig % 255 = q.toBig % 255 := by
  obtain ⟨a, b, c, d⟩ := q
  simp only [Quad.reverse, Quad.toBig]
  omega

theorem reverse_zero {q : Quad} (h : q.toBig = 0) : q.reverse.toBig = 0 := by
  obtain ⟨a, b, c, d⟩ := q
  simp only [Quad.reverse, Quad.toBig] at h ⊢
  have hd : d.toNat = 0 := by omega
  have hc : c.toNat = 0 := by omega
  have hb : b.toNat = 0 := by omega
  have ha : a.toNat = 0 := by omega
  rw [ha, hb, hc, hd]

/-- **One below an address is never that address backwards.** -/
theorem ofLittle_pred_ne (q : Quad) : ofLittle (UInt32.ofNat q.toBig - 1) ≠ q := by
  intro h
  have hrev : ofBig (UInt32.ofNat q.toBig - 1) = q.reverse := by rw [ofBig_eq, h]
  have hq := q.toBig_lt
  have h1 : (1 : UInt32).toNat = 1 := rfl
  have hnum : (2 ^ 32 - 1 + q.toBig) % 2 ^ 32 = q.reverse.toBig := by
    rw [← ofBig_eq_iff.1 hrev, UInt32.toNat_sub, toBig_toNat, h1]
  rcases Nat.eq_zero_or_pos q.toBig with h0 | h0
  · rw [h0, reverse_zero h0] at hnum
    omega
  · have hmod := reverse_mod q
    omega

end Ipv4
