import Mathlib.Data.List.Induction
import Mathlib.Tactic.Common

/-!
# Places in a list

A property `P pre a b` of a place says something of its element `a`, of the elements `pre`
before it, and of a value `b` that is read off there.

* `Last P l b`: `b` is read off at the last place of the list that has `P`.
* `last_concat`: one more element is the last place, or changes nothing.
* `exists_last`: where some place has `P`, there is a last one.
-/

namespace Places

variable {α β : Type*}

/-- **The last place with `P`** has the value `b`. -/
def Last (P : List α → α → β → Prop) (l : List α) (b : β) : Prop :=
  ∃ pre a post, l = pre ++ a :: post ∧ P pre a b ∧
    ∀ mid c post', post = mid ++ c :: post' → ∀ b', ¬ P (pre ++ a :: mid) c b'

variable {P : List α → α → β → Prop} {l pre post : List α} {a c : α} {b : β}

theorem not_last_nil : ¬ Last P [] b := by
  rintro ⟨pre, a, post, h, -⟩
  simp at h

/-- A place of a longer list is its end, or was there before. -/
theorem concat_eq (h : l ++ [a] = pre ++ c :: post) :
    (pre = l ∧ c = a ∧ post = []) ∨ ∃ post', post = post' ++ [a] ∧ l = pre ++ c :: post' := by
  induction post using List.reverseRecOn with
  | nil =>
    obtain ⟨hl, ha⟩ := List.append_inj' h rfl
    exact Or.inl ⟨hl.symm, (List.singleton_inj.1 ha).symm, rfl⟩
  | append_singleton post' d _ =>
    have hd : l ++ [a] = (pre ++ c :: post') ++ [d] := by simpa using h
    obtain ⟨hl, ha⟩ := List.append_inj' hd rfl
    obtain rfl := List.singleton_inj.1 ha
    exact Or.inr ⟨post', rfl, hl⟩

/-- **One more element** is the last place with `P`, or it has no `P` and nothing changes. -/
theorem last_concat : Last P (l ++ [a]) b ↔ P l a b ∨ (Last P l b ∧ ∀ b', ¬ P l a b') := by
  constructor
  · rintro ⟨pre, c, post, hl, hP, hlast⟩
    rcases concat_eq hl with ⟨rfl, rfl, rfl⟩ | ⟨post', rfl, rfl⟩
    · exact Or.inl hP
    · refine Or.inr ⟨⟨pre, c, post', rfl, hP, ?_⟩, hlast post' a [] rfl⟩
      rintro mid d post'' rfl
      exact hlast mid d (post'' ++ [a]) (by simp)
  · rintro (hP | ⟨⟨pre, c, post, rfl, hP, hlast⟩, hnot⟩)
    · refine ⟨l, a, [], rfl, hP, ?_⟩
      intro mid c post' h
      simp at h
    · refine ⟨pre, c, post ++ [a], by simp, hP, ?_⟩
      intro mid d post' h
      rcases concat_eq h with ⟨rfl, rfl, -⟩ | ⟨post'', -, rfl⟩
      · exact hnot
      · exact hlast mid d post'' rfl

/-- Where some place has `P`, there is a last one. -/
theorem exists_last (h : ∃ pre a post b, l = pre ++ a :: post ∧ P pre a b) : ∃ b, Last P l b := by
  induction l using List.reverseRecOn with
  | nil =>
    obtain ⟨pre, a, post, b, hl, -⟩ := h
    simp at hl
  | append_singleton l d ih =>
    by_cases hd : ∃ b, P l d b
    · obtain ⟨b, hb⟩ := hd
      exact ⟨b, last_concat.2 (Or.inl hb)⟩
    · have hnot : ∀ b, ¬ P l d b := fun b hb => hd ⟨b, hb⟩
      obtain ⟨pre, a, post, b, hl, hP⟩ := h
      rcases concat_eq hl with ⟨rfl, rfl, -⟩ | ⟨post', -, rfl⟩
      · exact absurd hP (hnot b)
      · obtain ⟨b', hb'⟩ := ih ⟨pre, a, post', b, rfl, hP⟩
        exact ⟨b', last_concat.2 (Or.inr ⟨hb', hnot⟩)⟩

end Places
