import Mathlib.Data.Int.Notation
import Mathlib.Tactic.Common

/-!
# Flat memory

A memory is a function from offsets to cells. `slice m p n` reads `n` cells from
offset `p` on, `write m p l` puts the list `l` there. Bounds are the caller's affair.

* `slice_write_same`: what was written is read back.
* `slice_write_outside`: a read beside the written cells sees the old ones.
* `slice_congr`, `write_congr`: what memories that agree on some cells have in common.
-/

namespace Memory

variable {α : Type*}

/-- The cells at the offsets `p, ..., p + n - 1`. -/
def slice (m : ℤ → α) : ℤ → ℕ → List α
  | _, 0 => []
  | p, n + 1 => m p :: slice m (p + 1) n

/-- The memory with the list at the offsets from `p` on. -/
def write (m : ℤ → α) : ℤ → List α → ℤ → α
  | _, [] => m
  | p, a :: l => fun q => if q = p then a else write m (p + 1) l q

@[simp] theorem slice_zero (m : ℤ → α) (p : ℤ) : slice m p 0 = [] := rfl

@[simp] theorem length_slice (m : ℤ → α) : ∀ (n : ℕ) (p : ℤ), (slice m p n).length = n := by
  intro n
  induction n with
  | zero => exact fun _ => rfl
  | succ n ih => exact fun p => congrArg (· + 1) (ih (p + 1))

/-- A slice in two parts. -/
theorem slice_add (m : ℤ → α) (k : ℕ) : ∀ (n : ℕ) (p : ℤ),
    slice m p (n + k) = slice m p n ++ slice m (p + n) k := by
  intro n
  induction n with
  | zero => intro p; simp
  | succ n ih =>
    intro p
    have hoff : p + 1 + (n : ℤ) = p + ((n + 1 : ℕ) : ℤ) := by push_cast; omega
    rw [show n + 1 + k = (n + k) + 1 by omega]
    show m p :: slice m (p + 1) (n + k) = m p :: (slice m (p + 1) n ++ _)
    rw [ih, hoff]

/-- The second part of a slice that is known. -/
theorem slice_drop {m : ℤ → α} {p : ℤ} {xs ys : List α}
    (h : slice m p (xs ++ ys).length = xs ++ ys) :
    slice m p xs.length = xs ∧ slice m (p + xs.length) ys.length = ys := by
  rw [List.length_append, slice_add] at h
  exact List.append_inj h (by simp)

theorem write_outside (m : ℤ → α) (q : ℤ) : ∀ (l : List α) (p : ℤ), q < p ∨ p + l.length ≤ q →
    write m p l q = m q := by
  intro l
  induction l with
  | nil => exact fun _ _ => rfl
  | cons a l ih =>
    intro p h
    rw [List.length_cons] at h
    have hne : q ≠ p := by omega
    show (if q = p then a else write m (p + 1) l q) = m q
    rw [if_neg hne]
    exact ih (p + 1) (by omega)

/-- A read beside the written cells sees the old ones. -/
theorem slice_write_outside (m : ℤ → α) (p : ℤ) (l : List α) : ∀ (n : ℕ) (q : ℤ),
    q + n ≤ p ∨ p + l.length ≤ q → slice (write m p l) q n = slice m q n := by
  intro n
  induction n with
  | zero => exact fun _ _ => rfl
  | succ n ih =>
    intro q h
    show write m p l q :: slice (write m p l) (q + 1) n = m q :: slice m (q + 1) n
    rw [write_outside m q l p (by omega), ih (q + 1) (by omega)]

/-- What was written is read back. -/
theorem slice_write_same (m : ℤ → α) : ∀ (l : List α) (p : ℤ), slice (write m p l) p l.length = l := by
  intro l
  induction l with
  | nil => exact fun _ => rfl
  | cons a l ih =>
    intro p
    have hhead : write m p (a :: l) p = a := if_pos rfl
    -- the rest of the read does not see the first cell
    have htail : ∀ (n : ℕ) (q : ℤ), p < q →
        slice (write m p (a :: l)) q n = slice (write m (p + 1) l) q n := by
      intro n
      induction n with
      | zero => exact fun _ _ => rfl
      | succ n ihn =>
        intro q hq
        have hcell : write m p (a :: l) q = write m (p + 1) l q := if_neg (by omega)
        show write m p (a :: l) q :: _ = write m (p + 1) l q :: _
        rw [hcell, ihn (q + 1) (by omega)]
    show write m p (a :: l) p :: slice (write m p (a :: l)) (p + 1) l.length = a :: l
    rw [hhead, htail _ _ (by omega), ih]

/-- Memories that agree on the cells of a slice. -/
theorem slice_congr {m m' : ℤ → α} : ∀ (n : ℕ) (p : ℤ), (∀ q, p ≤ q → q < p + n → m q = m' q) →
    slice m p n = slice m' p n := by
  intro n
  induction n with
  | zero => exact fun _ _ => rfl
  | succ n ih =>
    intro p h
    show m p :: slice m (p + 1) n = m' p :: slice m' (p + 1) n
    rw [h p (by omega) (by omega), ih (p + 1) fun q hp hq => h q (by omega) (by omega)]

/-- A cell that is written, or on which the memories agree. -/
theorem write_congr {m m' : ℤ → α} {q : ℤ} : ∀ (l : List α) (p : ℤ),
    (p ≤ q ∧ q < p + l.length) ∨ m q = m' q → write m p l q = write m' p l q := by
  intro l
  induction l with
  | nil =>
    rintro p (⟨hp, hq⟩ | h)
    · rw [List.length_nil] at hq
      omega
    · exact h
  | cons a l ih =>
    intro p h
    show (if q = p then a else write m (p + 1) l q) = if q = p then a else write m' (p + 1) l q
    by_cases hqp : q = p
    · rw [if_pos hqp, if_pos hqp]
    · rw [if_neg hqp, if_neg hqp]
      refine ih (p + 1) (h.imp_left fun ⟨hp, hq⟩ => ?_)
      rw [List.length_cons] at hq
      push_cast at hq
      exact ⟨by omega, by omega⟩

end Memory
