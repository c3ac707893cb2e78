import Mathlib.Data.Int.CardIntervalMod
import Mathlib.Data.List.Count
import Mathlib.Data.List.Nodup
import Mathlib.Data.List.Rotate

/-!
# A list served round robin

Each turn serves the front of a list and moves it to the back.

* `served l n`: what `n` turns serve, by the positions in the list they started with.
* `served_cons`, `List.rotate_cons_succ`: one turn, and the turns after it.
* `turns_le`, `count_served_le`: no entry is served two turns ahead of another.
* `next`, `next_val`: the same for a fixed ring of numbers.
-/

namespace RoundRobin

variable {α : Type*}

/-- The entries that `n` turns serve, in their order. -/
def served (l : List α) (n : ℕ) : List α := (List.range n).filterMap fun i => l[i % l.length]?

/-- How many of `n` turns on a list of length `len` come to position `x`. -/
def turns (len n x : ℕ) : ℕ := Nat.count (fun i => i % len = x) n

@[simp] theorem served_zero (l : List α) : served l 0 = [] := rfl

@[simp] theorem served_nil (n : ℕ) : served ([] : List α) n = [] := by
  unfold served
  simp

/-- A turn serves the front; the others serve the list behind it. -/
theorem served_cons (a : α) (l : List α) (n : ℕ) :
    served (a :: l) (n + 1) = a :: served (l ++ [a]) n := by
  have hshift : ∀ i, (a :: l)[(i + 1) % (a :: l).length]? = (l ++ [a])[i % (l ++ [a]).length]? := by
    intro i
    have hlen : (l ++ [a]).length = (a :: l).length := by simp
    have hlt : i % (a :: l).length < (a :: l).length := Nat.mod_lt _ (by simp)
    have hrot : l ++ [a] = (a :: l).rotate 1 := by simp
    rw [hlen, hrot, List.getElem?_rotate hlt, Nat.mod_add_mod]
  unfold served
  rw [List.range_succ_eq_map, List.filterMap_cons, List.filterMap_map]
  simp only [Function.comp_def, Nat.succ_eq_add_one, hshift]
  simp

/-- **Turns are shared out evenly.** -/
theorem turns_le {len x y : ℕ} (hx : x < len) (hy : y < len) (n : ℕ) :
    turns len n x ≤ turns len n y + 1 := by
  have hcard : ∀ v, v < len → turns len n v = n / len + if v < n % len then 1 else 0 := by
    intro v hv
    have h := Nat.count_modEq_card n (by omega : 0 < len) v
    rw [Nat.mod_eq_of_lt hv] at h
    rw [← h]
    unfold turns
    congr
    funext i
    rw [Nat.ModEq, Nat.mod_eq_of_lt hv]
  rw [hcard x hx, hcard y hy]
  split <;> split <;> omega

/-- An entry that the list has once is served when the turns come to its position. -/
theorem count_served [DecidableEq α] {l : List α} (hl : l.Nodup) {x : ℕ} (hx : x < l.length) (n : ℕ) :
    (served l n).count l[x] = turns l.length n x := by
  have hpos : ∀ i, l[i % l.length]? = some l[x] ↔ i % l.length = x := by
    intro i
    have hi : i % l.length < l.length := Nat.mod_lt _ (by omega)
    rw [List.getElem?_eq_getElem hi, Option.some.injEq]
    exact hl.getElem_inj_iff
  induction n with
  | zero => rfl
  | succ n ih =>
    have hn : n % l.length < l.length := Nat.mod_lt _ (by omega)
    have hserved : served l (n + 1) = served l n ++ [l[n % l.length]] := by
      unfold served
      rw [List.range_succ, List.filterMap_append]
      simp [List.getElem?_eq_getElem hn]
    unfold turns at ih ⊢
    rw [hserved, List.count_append, ih, Nat.count_succ, List.count_singleton]
    congr 1
    have hiff := hpos n
    rw [List.getElem?_eq_getElem hn, Option.some.injEq] at hiff
    simp only [beq_iff_eq, hiff]

/-- No two entries of a list without repetition differ by more than one turn. -/
theorem count_served_le [DecidableEq α] {l : List α} (hl : l.Nodup) {a b : α} (ha : a ∈ l) (hb : b ∈ l)
    (n : ℕ) : (served l n).count a ≤ (served l n).count b + 1 := by
  obtain ⟨x, hx, rfl⟩ := List.getElem_of_mem ha
  obtain ⟨y, hy, rfl⟩ := List.getElem_of_mem hb
  rw [count_served hl hx, count_served hl hy]
  exact turns_le hx hy n

/-- The number behind `i`, and behind the last one the first. -/
def next {n : ℕ} (i : Fin n) : Fin n := if h : i.val + 1 < n then ⟨i.val + 1, h⟩ else ⟨0, i.pos⟩

/-- After `m` turns the ring stands at `m % n`. -/
theorem next_val {n m : ℕ} {i : Fin n} (h : i.val = m % n) : (next i).val = (m + 1) % n := by
  have hmod : (m + 1) % n = (i.val + 1) % n := by rw [h, Nat.mod_add_mod]
  rw [hmod]
  unfold next
  split
  · rename_i hlt
    exact (Nat.mod_eq_of_lt hlt).symm
  · rename_i hlt
    have hlast : i.val + 1 = n := by omega
    rw [hlast, Nat.mod_self]

end RoundRobin
