import Mathlib.Data.List.Induction
import Mathlib.Logic.Function.Basic

/-!
# The last write to a key

A log of writes `(key, value)`, the oldest first, and what it leaves under a key. Where
several writers write into one log, each entry carries its writer.

* `last_concat`, `last_append`: a later write wins.
* `last_of_agree`: where all writes to a key agree, their order does not matter.
* `exists_last`: what a merged log leaves under a key is what **one of the writers** left
  there last.
* `last_of_only`: where one writer alone writes to the key, it is what that one left.
-/

namespace WriteLog

variable {ι κ ν α : Type*}

/-- What the log leaves under a key. -/
def last [DecidableEq κ] (log : List (κ × ν)) (k : κ) : Option ν :=
  log.reverse.findSome? fun w => if w.1 = k then some w.2 else none

/-- The entries of one writer. -/
def ofWriter [DecidableEq ι] (i : ι) (log : List (ι × κ × ν)) : List (κ × ν) :=
  log.filterMap fun w => if w.1 = i then some w.2 else none

section Last

variable [DecidableEq κ]

@[simp] theorem last_nil (k : κ) : last ([] : List (κ × ν)) k = none := rfl

theorem last_append (l₁ l₂ : List (κ × ν)) (k : κ) : last (l₁ ++ l₂) k = (last l₂ k).or (last l₁ k) := by
  unfold last
  rw [List.reverse_append, List.findSome?_append]

@[simp] theorem last_singleton (w : κ × ν) (k : κ) : last [w] k = if w.1 = k then some w.2 else none := by
  unfold last
  simp

theorem last_concat (log : List (κ × ν)) (w : κ × ν) :
    last (log ++ [w]) = Function.update (last log) w.1 (some w.2) := by
  funext k
  rw [last_append, last_singleton]
  by_cases h : k = w.1
  · rw [h, if_pos rfl, Function.update_self]
    rfl
  · rw [if_neg (Ne.symm h), Function.update_of_ne h]
    rfl

/-- The last of several batches that writes to the key counts. -/
theorem last_flatMap (f : α → List (κ × ν)) (l : List α) (k : κ) :
    last (l.flatMap f) k = l.reverse.findSome? fun a => last (f a) k := by
  induction l with
  | nil => rfl
  | cons a l ih =>
    rw [List.flatMap_cons, last_append, ih, List.reverse_cons, List.findSome?_append]
    simp

theorem last_eq_none {log : List (κ × ν)} {k : κ} : last log k = none ↔ ∀ w ∈ log, w.1 ≠ k := by
  unfold last
  simp [List.findSome?_eq_none_iff]

theorem mem_of_last {log : List (κ × ν)} {k : κ} {v : ν} (h : last log k = some v) : (k, v) ∈ log := by
  obtain ⟨w, hw, hv⟩ := List.exists_of_findSome?_eq_some h
  split at hv
  · rename_i hk
    obtain rfl := Option.some.inj hv
    subst hk
    exact List.mem_reverse.1 hw
  · cases hv

/-- Where all writes to a key agree, they are what is left. -/
theorem last_of_agree {log : List (κ × ν)} {k : κ} {v : ν} (hmem : (k, v) ∈ log)
    (hall : ∀ w ∈ log, w.1 = k → w.2 = v) : last log k = some v := by
  rcases hl : last log k with _ | u
  · exact absurd rfl (last_eq_none.1 hl _ hmem)
  · rw [← hall _ (mem_of_last hl) rfl]

end Last

section Writers

variable [DecidableEq ι]

@[simp] theorem ofWriter_nil (i : ι) : ofWriter i ([] : List (ι × κ × ν)) = [] := rfl

theorem ofWriter_append (i : ι) (l₁ l₂ : List (ι × κ × ν)) :
    ofWriter i (l₁ ++ l₂) = ofWriter i l₁ ++ ofWriter i l₂ :=
  List.filterMap_append

theorem ofWriter_map_self (i : ι) (l : List (κ × ν)) : ofWriter i (l.map fun w => (i, w)) = l := by
  induction l with
  | nil => rfl
  | cons w l ih =>
    unfold ofWriter at ih ⊢
    simp only [List.map_cons, List.filterMap_cons, if_true, ih]

theorem ofWriter_map_ne {i j : ι} (h : j ≠ i) (l : List (κ × ν)) :
    ofWriter i (l.map fun w => (j, w)) = [] := by
  induction l with
  | nil => rfl
  | cons w l ih =>
    unfold ofWriter at ih ⊢
    simp only [List.map_cons, List.filterMap_cons, if_neg h, ih]

theorem ofWriter_concat_self (i : ι) (log : List (ι × κ × ν)) (w : κ × ν) :
    ofWriter i (log ++ [(i, w)]) = ofWriter i log ++ [w] := by
  rw [ofWriter_append]
  simp [ofWriter]

theorem ofWriter_concat_ne {i j : ι} (h : j ≠ i) (log : List (ι × κ × ν)) (w : κ × ν) :
    ofWriter i (log ++ [(j, w)]) = ofWriter i log := by
  rw [ofWriter_append]
  simp [ofWriter, h]

variable [DecidableEq κ]

/-- **What is left under a key is what one of the writers left there last.** -/
theorem exists_last {log : List (ι × κ × ν)} {k : κ} {v : ν} (h : last (log.map Prod.snd) k = some v) :
    ∃ i, last (ofWriter i log) k = some v := by
  induction log using List.reverseRecOn with
  | nil => cases h
  | append_singleton log w ih =>
    obtain ⟨j, k', u⟩ := w
    rw [List.map_append, List.map_singleton, last_concat] at h
    by_cases hk : k = k'
    · -- the newest entry is to this key, and so is it among those of its writer
      subst hk
      refine ⟨j, ?_⟩
      rw [ofWriter_concat_self, last_concat]
      rw [Function.update_self] at h ⊢
      exact h
    · rw [Function.update_of_ne hk] at h
      obtain ⟨i, hi⟩ := ih h
      refine ⟨i, ?_⟩
      by_cases hj : j = i
      · subst hj
        rw [ofWriter_concat_self, last_concat, Function.update_of_ne hk]
        exact hi
      · rw [ofWriter_concat_ne hj]
        exact hi

/-- A key to which nothing was written has nothing from any writer. -/
theorem last_ofWriter_none {log : List (ι × κ × ν)} {k : κ} (h : last (log.map Prod.snd) k = none) (i : ι) :
    last (ofWriter i log) k = none := by
  rw [last_eq_none] at h ⊢
  intro w hw
  obtain ⟨e, he, hei⟩ := List.mem_filterMap.1 hw
  split at hei
  · cases hei
    exact h _ (List.mem_map.2 ⟨e, he, rfl⟩)
  · cases hei

theorem last_of_only {log : List (ι × κ × ν)} {k : κ} {i : ι}
    (h : ∀ j, j ≠ i → last (ofWriter j log) k = none) :
    last (log.map Prod.snd) k = last (ofWriter i log) k := by
  cases hl : last (log.map Prod.snd) k with
  | none => exact (last_ofWriter_none hl i).symm
  | some v =>
    obtain ⟨j, hj⟩ := exists_last hl
    by_cases hji : j = i
    · rw [← hji, hj]
    · rw [h j hji] at hj
      cases hj

end Writers

end WriteLog
