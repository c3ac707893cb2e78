import LbRpc.Base.Wire

/-!
# Numbers in base 128

Seven bits to a byte, the lowest first; every byte but the last has its high bit set.

* `decode_encode`: what is decoded of a number as it is encoded, and what comes behind it.
* `base128`: a runtime of `Wire` that writes numbers so, and `base128_lawful`.
-/

namespace Varint

/-- A number in at most `k + 1` bytes. -/
def encode : ℕ → ℕ → List UInt8
  | 0, n => [UInt8.ofNat n]
  | k + 1, n => if n < 128 then [UInt8.ofNat n] else UInt8.ofNat (n % 128 + 128) :: encode k (n / 128)

/-- The number of at most `k` bytes at the front, and what is left. -/
def decode : ℕ → List UInt8 → Option (ℕ × List UInt8)
  | 0, _ => none
  | _ + 1, [] => none
  | k + 1, b :: bs =>
    if b.toNat < 128 then some (b.toNat, bs)
    else
      match decode k bs with
      | none => none
      | some (n, rest) => some (b.toNat - 128 + 128 * n, rest)

theorem length_encode_le (k n : ℕ) : (encode k n).length ≤ k + 1 := by
  induction k generalizing n with
  | zero => exact Nat.le_refl 1
  | succ k ih =>
    unfold encode
    by_cases h : n < 128
    · rw [if_pos h, List.length_singleton]
      omega
    · have := ih (n / 128)
      rw [if_neg h, List.length_cons]
      omega

theorem encode_small {k n : ℕ} (h : n < 128) : encode k n = [UInt8.ofNat n] := by
  cases k with
  | zero => rfl
  | succ k => exact if_pos h

/-- **A number is decoded as it was encoded**, and what comes behind it is left. -/
theorem decode_encode (k n : ℕ) (rest : List UInt8) (h : n < 128 ^ (k + 1)) :
    decode (k + 1) (encode k n ++ rest) = some (n, rest) := by
  induction k generalizing n with
  | zero =>
    have hlast : (UInt8.ofNat n).toNat = n := by
      rw [UInt8.toNat_ofNat']
      omega
    simp only [encode, List.cons_append, List.nil_append, decode, hlast]
    rw [if_pos (by omega)]
  | succ k ih =>
    unfold encode
    by_cases hn : n < 128
    · have hlast : (UInt8.ofNat n).toNat = n := by
        rw [UInt8.toNat_ofNat']
        omega
      rw [if_pos hn, List.cons_append, decode, hlast, if_pos hn, List.nil_append]
    · have hbyte : (UInt8.ofNat (n % 128 + 128)).toNat = n % 128 + 128 := by
        rw [UInt8.toNat_ofNat']
        omega
      have hdiv : n / 128 < 128 ^ (k + 1) := by
        rw [Nat.pow_succ] at h
        omega
      have hsum : n % 128 + 128 - 128 + 128 * (n / 128) = n := by omega
      rw [if_neg hn, List.cons_append, decode, hbyte, if_neg (by omega), ih (n / 128) hdiv]
      simp only [hsum]

theorem decode_encode_of_le {k j n : ℕ} (rest : List UInt8) (hkj : k ≤ j) (h : n < 128 ^ (k + 1)) :
    decode (k + 1) (encode j n ++ rest) = some (n, rest) := by
  have hsame : encode j n = encode k n := by
    induction k generalizing j n with
    | zero =>
      rw [encode_small (by omega), encode_small (by omega)]
    | succ k ih =>
      obtain ⟨i, rfl⟩ : ∃ i, j = i + 1 := ⟨j - 1, by omega⟩
      have hdiv : n / 128 < 128 ^ (k + 1) := by
        rw [Nat.pow_succ] at h
        omega
      unfold encode
      rw [ih (by omega) hdiv]
  rw [hsame]
  exact decode_encode k n rest h

/-- Decoding takes a byte. -/
theorem decode_lt {k n : ℕ} {bs rest : List UInt8} (h : decode k bs = some (n, rest)) :
    rest.length < bs.length := by
  induction k generalizing bs n rest with
  | zero => cases h
  | succ k ih =>
    cases bs with
    | nil => cases h
    | cons b bs =>
      rw [decode] at h
      rw [List.length_cons]
      by_cases hb : b.toNat < 128
      · rw [if_pos hb] at h
        cases h
        omega
      · rw [if_neg hb] at h
        rcases hd : decode k bs with _ | ⟨m, r⟩
        · rw [hd] at h
          cases h
        · have := ih hd
          rw [hd] at h
          cases h
          omega

/-- A number of at most `k` bytes that `f` takes. -/
def read {β : Type*} (k : ℕ) (f : ℕ → Option β) (bs : List UInt8) : Option (β × List UInt8) :=
  match decode k bs with
  | none => none
  | some (n, rest) =>
    match f n with
    | none => none
    | some v => some (v, rest)

theorem read_lt {β : Type*} {k : ℕ} {f : ℕ → Option β} {bs rest : List UInt8} {v : β}
    (h : read k f bs = some (v, rest)) : rest.length < bs.length := by
  unfold read at h
  rcases hd : decode k bs with _ | ⟨n, r⟩
  · rw [hd] at h
    cases h
  · have hlt := decode_lt hd
    rw [hd] at h
    dsimp only at h
    rcases hf : f n with _ | w
    · rw [hf] at h
      cases h
    · rw [hf] at h
      cases h
      exact hlt

/-- Go past `n` bytes. -/
def dropBytes (n : ℕ) (bs : List UInt8) : Option (List UInt8) :=
  if bs.length < n then none else some (bs.drop n)

theorem dropBytes_le {n : ℕ} {bs rest : List UInt8} (h : dropBytes n bs = some rest) :
    rest.length ≤ bs.length := by
  unfold dropBytes at h
  by_cases hn : bs.length < n
  · rw [if_pos hn] at h
    cases h
  · rw [if_neg hn] at h
    cases h
    rw [List.length_drop]
    omega

/-- A size, which is an `int` with some room above. -/
def asSize (n : ℕ) : Option ℕ := if n < 2 ^ 31 - 16 then some n else none

/-- Go past a value by the kind that its tag names. Groups are not known. -/
def skip (tag : UInt32) (bs : List UInt8) : Option (List UInt8) :=
  if tag % 8 = 0 then (read 10 some bs).map (·.2)
  else if tag % 8 = 1 then dropBytes 8 bs
  else if tag % 8 = 2 then
    match read 5 asSize bs with
    | none => none
    | some (n, rest) => dropBytes n rest
  else if tag % 8 = 5 then dropBytes 4 bs
  else none

theorem skip_le {tag : UInt32} {bs rest : List UInt8} (h : skip tag bs = some rest) :
    rest.length ≤ bs.length := by
  unfold skip at h
  split_ifs at h with h0 h1 h2 h5
  · obtain ⟨r, hr, rfl⟩ := Option.map_eq_some_iff.1 h
    exact Nat.le_of_lt (read_lt hr)
  · exact dropBytes_le h
  · rcases hr : read 5 asSize bs with _ | ⟨n, r⟩
    · rw [hr] at h
      cases h
    · have hlt := read_lt hr
      rw [hr] at h
      have hle := dropBytes_le h
      omega
  · exact dropBytes_le h

/-- **Numbers in base 128 as a runtime**: at most ten bytes for 64 bits, five for a tag or a
size. -/
def base128 : Wire.Runtime where
  writeVarint := fun v => encode 9 v.toNat
  varintSize := fun v => (encode 9 v.toNat).length
  readVarint64 := read 10 fun n => some (UInt64.ofNat n)
  readVarint32 := read 10 fun n => some (UInt32.ofNat n)
  readTag := read 5 fun n => some (UInt32.ofNat n)
  readSize := read 5 asSize
  unknownFieldParse := skip

theorem read_encode {β : Type*} {k n : ℕ} {f : ℕ → Option β} {v : β} (rest : List UInt8) (hk : k ≤ 9)
    (h : n < 128 ^ (k + 1)) (hf : f n = some v) : read (k + 1) f (encode 9 n ++ rest) = some (v, rest) := by
  unfold read
  rw [decode_encode_of_le rest hk h]
  dsimp only
  rw [hf]

theorem base128_lawful : base128.Lawful where
  varintSize := fun _ => rfl
  length_le := fun v => length_encode_le 9 v.toNat
  length_small := by
    intro v hv
    show (encode 9 v.toNat).length = 1
    rw [encode_small hv, List.length_singleton]
  readVarint64_write := by
    intro v rest
    have hlt : v.toNat < 128 ^ (9 + 1) := Nat.lt_of_lt_of_le v.toNat_lt (by decide)
    show read 10 (fun n => some (UInt64.ofNat n)) (encode 9 v.toNat ++ rest) = some (v, rest)
    refine read_encode (k := 9) rest (Nat.le_refl 9) hlt ?_
    rw [UInt64.ofNat_toNat]
  readVarint32_write := by
    intro v rest
    have hlt : v.toNat < 128 ^ (9 + 1) := Nat.lt_of_lt_of_le v.toNat_lt (by decide)
    show read 10 (fun n => some (UInt32.ofNat n)) (encode 9 v.toNat ++ rest) = some (v.toUInt32, rest)
    exact read_encode (k := 9) rest (Nat.le_refl 9) hlt rfl
  readSize_write := by
    intro n rest hn
    have hv : (UInt64.ofNat n).toNat = n := by
      rw [UInt64.toNat_ofNat']
      omega
    show read 5 asSize (encode 9 (UInt64.ofNat n).toNat ++ rest) = some (n, rest)
    rw [hv]
    exact read_encode (k := 4) rest (by omega) (by omega) (if_pos hn)
  readTag_byte := by
    intro t rest _ ht
    show read 5 (fun n => some (UInt32.ofNat n)) (t :: rest) = some (t.toUInt32, rest)
    have hbyte : UInt32.ofNat t.toNat = t.toUInt32 := by
      apply UInt32.toNat_inj.1
      rw [UInt32.toNat_ofNat', UInt8.toNat_toUInt32]
      omega
    unfold read decode
    rw [if_pos ht]
    dsimp only
    rw [hbyte]
  readVarint64_lt := fun _ _ _ h => read_lt (f := fun n => some (UInt64.ofNat n)) h
  readVarint32_lt := fun _ _ _ h => read_lt (f := fun n => some (UInt32.ofNat n)) h
  readTag_lt := fun _ _ _ h => read_lt (f := fun n => some (UInt32.ofNat n)) h
  readSize_lt := fun _ _ _ h => read_lt h
  unknownFieldParse_le := fun _ _ _ h => skip_le h

end Varint
