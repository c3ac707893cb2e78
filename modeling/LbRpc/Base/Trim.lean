import Mathlib.Data.List.DropRight
import Mathlib.Data.List.TakeWhile

/-!
# Trimming a list at both ends

* `Trimmed p s t`: `t` is `s` without what satisfies `p` at its two ends.
* `trimmed_iff`: the two `dropWhile` compute it, and there is no other.
-/

namespace Trim

variable {α : Type*} {p : α → Bool} {s t pre post : List α}

/-- **`t` stands in `s` between elements with `p`**, and has none of them at its own ends. -/
structure Trimmed (p : α → Bool) (s t : List α) : Prop where
  around : ∃ pre post, s = pre ++ t ++ post ∧ (∀ a ∈ pre, p a = true) ∧ ∀ a ∈ post, p a = true
  first : ∀ a, t.head? = some a → p a = false
  last : ∀ a, t.getLast? = some a → p a = false

/-- What is left behind the front. -/
theorem dropWhile_eq (hpre : ∀ a ∈ pre, p a = true) (ht : ∀ a, t.head? = some a → p a = false) :
    (pre ++ t).dropWhile p = t := by
  rw [List.dropWhile_append_of_pos hpre]
  cases t with
  | nil => rfl
  | cons a t =>
    have ha : p a = false := ht a rfl
    rw [List.dropWhile_cons_of_neg (by simp [ha])]

/-- What is left before the end. -/
theorem rdropWhile_eq (hpost : ∀ a ∈ post, p a = true) (ht : ∀ a, t.getLast? = some a → p a = false) :
    (t ++ post).rdropWhile p = t := by
  have hfront : (post.reverse ++ t.reverse).dropWhile p = t.reverse :=
    dropWhile_eq (fun a ha => hpost a (List.mem_reverse.1 ha))
      (fun a ha => ht a (by rwa [List.head?_reverse] at ha))
  unfold List.rdropWhile
  rw [List.reverse_append, hfront, List.reverse_reverse]

theorem getLast?_rdropWhile (a : α) (h : (s.rdropWhile p).getLast? = some a) : p a = false := by
  have hne : s.rdropWhile p ≠ [] := by
    intro hnil
    rw [hnil] at h
    cases h
  have hlast := List.rdropWhile_last_not p s hne
  rw [List.getLast?_eq_some_getLast hne] at h
  cases h
  simpa using hlast

/-- The two `dropWhile` trim. -/
theorem trimmed_dropWhile (p : α → Bool) (s : List α) : Trimmed p s ((s.rdropWhile p).dropWhile p) where
  around := by
    refine ⟨(s.rdropWhile p).takeWhile p, s.rtakeWhile p, ?_, ?_, ?_⟩
    · rw [List.takeWhile_append_dropWhile, List.rdropWhile_append_rtakeWhile]
    · exact fun a ha => List.mem_takeWhile_imp ha
    · exact fun a ha => List.mem_rtakeWhile_imp ha
  first := by
    intro a ha
    have hfirst := List.head?_dropWhile_not p (s.rdropWhile p)
    rw [ha] at hfirst
    exact hfirst
  last := by
    intro a ha
    obtain ⟨us, hus⟩ := List.dropWhile_suffix (l := s.rdropWhile p) p
    refine getLast?_rdropWhile (s := s) a ?_
    rw [← hus, List.getLast?_append, ha]
    rfl

/-- **There is one way to trim.** -/
theorem trimmed_iff : Trimmed p s t ↔ (s.rdropWhile p).dropWhile p = t := by
  constructor
  · rintro ⟨⟨pre, post, rfl, hpre, hpost⟩, hfirst, hlast⟩
    by_cases hne : t = []
    · -- everything goes
      subst hne
      have hall : ∀ a ∈ pre ++ [] ++ post, p a = true := by
        intro a ha
        rw [List.append_nil, List.mem_append] at ha
        exact ha.elim (hpre a) (hpost a)
      rw [List.rdropWhile_eq_nil_iff.2 hall]
      rfl
    · have hend : ∀ a, (pre ++ t).getLast? = some a → p a = false := by
        intro a ha
        rw [List.getLast?_append_of_ne_nil pre hne] at ha
        exact hlast a ha
      rw [rdropWhile_eq hpost hend, dropWhile_eq hpre hfirst]
  · rintro rfl
    exact trimmed_dropWhile p s

end Trim
