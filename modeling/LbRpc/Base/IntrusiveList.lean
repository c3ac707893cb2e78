import Mathlib.Data.List.Nodup
import Mathlib.Data.Nat.Notation
import Mathlib.Tactic.Common

/-!
# Intrusive linked lists

A list is threaded through objects by a pointer field of their own. `next a` is that field
of the object at `a`, and `none` where no object lives; a null pointer is `some none`.
`Links next p l` says that the pointers from `p` on run through the addresses `l` and end
in null.

* `Links.unique`, `Links.nodup`: a pointer leads to one list only, and never twice
  through one object.
* `Links.push`, `Links.uncons`, `Links.extend`: the list with an object put in front, taken
  from the front, or put behind the last.
* `Links.congr`: other objects do not matter.
-/

namespace IntrusiveList

variable {next next' : ℕ → Option (Option ℕ)} {p : Option ℕ} {a b : ℕ} {l l' : List ℕ}

/-- The pointers from `p` on run through `l` and end in null. -/
def Links (next : ℕ → Option (Option ℕ)) : Option ℕ → List ℕ → Prop
  | p, [] => p = none
  | p, a :: l => p = some a ∧ ∃ q, next a = some q ∧ Links next q l

theorem Links.unique : Links next p l → Links next p l' → l = l' := by
  induction l generalizing p l' with
  | nil =>
    rintro rfl h'
    cases l' with
    | nil => rfl
    | cons b l' => cases h'.1
  | cons a l ih =>
    rintro ⟨rfl, q, hq, hl⟩ h'
    cases l' with
    | nil => cases h'
    | cons b l' =>
      obtain ⟨hb, q', hq', hl'⟩ := h'
      cases hb
      rw [hq] at hq'
      cases hq'
      rw [ih hl hl']

/-- From an object of the list the rest of the list is reached. -/
theorem Links.drop (h : Links next p (l ++ a :: l')) : Links next (some a) (a :: l') := by
  induction l generalizing p with
  | nil =>
    obtain ⟨rfl, hrest⟩ := h
    exact ⟨rfl, hrest⟩
  | cons b l ih =>
    obtain ⟨-, q, -, hq⟩ := h
    exact ih hq

/-- **A list that ends passes no object twice.** -/
theorem Links.nodup (h : Links next p l) : l.Nodup := by
  induction l generalizing p with
  | nil => exact List.nodup_nil
  | cons a l ih =>
    obtain ⟨rfl, q, hq, hl⟩ := h
    refine List.nodup_cons.2 ⟨fun ha => ?_, ih hl⟩
    -- what follows the second `a` would also follow the first
    obtain ⟨s, t, rfl⟩ := List.append_of_mem ha
    have hall : Links next (some a) (a :: (s ++ a :: t)) := ⟨rfl, q, hq, hl⟩
    have hlen := congrArg List.length (hl.drop.unique hall)
    simp only [List.length_cons, List.length_append] at hlen
    omega

theorem Links.congr (h : Links next p l) (heq : ∀ a ∈ l, next' a = next a) : Links next' p l := by
  induction l generalizing p with
  | nil => exact h
  | cons a l ih =>
    obtain ⟨rfl, q, hq, hl⟩ := h
    exact ⟨rfl, q, (heq a List.mem_cons_self).trans hq,
      ih hl fun b hb => heq b (List.mem_cons_of_mem a hb)⟩

/-- An object put in front of a list. -/
theorem Links.push (h : Links next p l) (ha : next' a = some p) (heq : ∀ b ∈ l, next' b = next b) :
    Links next' (some a) (a :: l) := ⟨rfl, p, ha, h.congr heq⟩

/-- The front object of a list, and what is behind it. -/
theorem Links.uncons (h : Links next (some a) l) : ∃ q t, l = a :: t ∧ next a = some q ∧ Links next q t := by
  cases l with
  | nil => cases h
  | cons b t =>
    obtain ⟨hb, q, hq, ht⟩ := h
    cases hb
    exact ⟨q, t, rfl, hq, ht⟩

/-- An object linked behind the last one. -/
theorem Links.extend (h : Links next p (l ++ [a])) (ha : next' a = some (some b))
    (hb : next' b = some none) (heq : ∀ c ∈ l, next' c = next c) : Links next' p (l ++ [a, b]) := by
  induction l generalizing p with
  | nil =>
    obtain ⟨rfl, -⟩ := h
    exact ⟨rfl, some b, ha, rfl, none, hb, rfl⟩
  | cons c l ih =>
    obtain ⟨rfl, q, hq, hl⟩ := h
    exact ⟨rfl, q, (heq c List.mem_cons_self).trans hq,
      ih hl fun d hd => heq d (List.mem_cons_of_mem c hd)⟩

/-- Every object of a list lives. -/
theorem Links.lives (h : Links next p l) (ha : a ∈ l) : ∃ q, next a = some q := by
  induction l generalizing p with
  | nil => cases ha
  | cons b l ih =>
    obtain ⟨rfl, q, hq, hl⟩ := h
    rcases List.mem_cons.1 ha with rfl | ha
    · exact ⟨q, hq⟩
    · exact ih hl ha

end IntrusiveList
