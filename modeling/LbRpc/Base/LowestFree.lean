import Mathlib.Data.Finset.Card
import Mathlib.Data.Finset.Range

/-!
# The lowest number that is free

Numbers are handed out from below: the next one is the lowest that is not in use.

* `lowest_notMem`, `mem_of_lt_lowest`: it is free, and nothing below it is.
* `lowest_lt_iff`: it is below a bound **if and only if** some number below the bound is free.
-/

namespace LowestFree

/-- The lowest number that is not in `used`. Of the numbers up to the size of `used`, one is
free. -/
def lowest (used : Finset ℕ) : ℕ := ((List.range (used.card + 1)).find? fun k => k ∉ used).getD 0

variable {used : Finset ℕ} {k m : ℕ}

theorem exists_free (used : Finset ℕ) : ∃ k < used.card + 1, k ∉ used := by
  have hcard : used.card < (Finset.range (used.card + 1)).card := by
    rw [Finset.card_range]
    exact Nat.lt_succ_self _
  obtain ⟨k, hk, hfree⟩ := Finset.exists_mem_notMem_of_card_lt_card hcard
  exact ⟨k, Finset.mem_range.1 hk, hfree⟩

theorem lowest_spec (used : Finset ℕ) : lowest used ∉ used ∧ ∀ k, k < lowest used → k ∈ used := by
  unfold lowest
  cases hfind : (List.range (used.card + 1)).find? fun k => k ∉ used with
  | none =>
    obtain ⟨k, hk, hfree⟩ := exists_free used
    rw [List.find?_range_eq_none] at hfind
    exact absurd hfree (by simpa using hfind k hk)
  | some k =>
    rw [List.find?_range_eq_some] at hfind
    obtain ⟨hfree, -, hbelow⟩ := hfind
    refine ⟨by simpa using hfree, fun j hj => ?_⟩
    simpa using hbelow j hj

theorem lowest_notMem (used : Finset ℕ) : lowest used ∉ used := (lowest_spec used).1

theorem mem_of_lt_lowest (h : k < lowest used) : k ∈ used := (lowest_spec used).2 k h

theorem lowest_lt_iff : lowest used < m ↔ ∃ k < m, k ∉ used := by
  constructor
  · exact fun h => ⟨_, h, lowest_notMem used⟩
  · rintro ⟨k, hk, hfree⟩
    by_contra hle
    exact hfree (mem_of_lt_lowest (by omega))

end LowestFree
