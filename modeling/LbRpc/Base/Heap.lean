import Mathlib.Data.Nat.Notation
import Mathlib.Order.Basic
import Mathlib.Order.Nat

/-!
# Heap objects behind pointers

`Heap α` holds objects of one type behind addresses. `alloc` hands out an address
that was never used, `free` kills the object, and `read` of an address that holds
no object is `none`: the caller turns that into its own fault. Addresses are not
reused, so a pointer to a freed object stays recognisable.
-/

/-- Objects by address; nothing lives at or above `next`. -/
structure Heap (α : Type*) where
  next : ℕ
  cell : ℕ → Option α
  fresh : ∀ a, next ≤ a → cell a = none

namespace Heap

variable {α : Type*} (h : Heap α)

def empty : Heap α := ⟨0, fun _ => none, fun _ _ => rfl⟩

/-- The object at an address, if one lives there. -/
def read (a : ℕ) : Option α := h.cell a

/-- A new object, at the address `h.next`. -/
def alloc (v : α) : Heap α where
  next := h.next + 1
  cell := fun a => if a = h.next then some v else h.cell a
  fresh := by
    intro a ha
    rw [if_neg (by omega)]
    exact h.fresh a (by omega)

/-- Change the object at an address; a dead address stays dead. -/
def modify (a : ℕ) (f : α → α) : Heap α where
  next := h.next
  cell := fun b => if b = a then (h.cell a).map f else h.cell b
  fresh := by
    intro b hb
    split
    · rename_i hba; subst hba; rw [h.fresh _ hb]; rfl
    · exact h.fresh b hb

/-- Delete the object at an address. -/
def free (a : ℕ) : Heap α where
  next := h.next
  cell := fun b => if b = a then none else h.cell b
  fresh := by
    intro b hb
    split
    · rfl
    · exact h.fresh b hb

variable {h} {a b : ℕ} {v : α} {f : α → α}

@[simp] theorem read_next : h.read h.next = none := h.fresh _ le_rfl

theorem lt_next (hv : h.read a = some v) : a < h.next := by
  by_contra hc
  rw [read, h.fresh a (by omega)] at hv
  cases hv

@[simp] theorem read_alloc_next : (h.alloc v).read h.next = some v := if_pos rfl

theorem read_alloc_ne (hab : a ≠ h.next) : (h.alloc v).read a = h.read a := if_neg hab

/-- An object that lives is not disturbed by an allocation. -/
theorem read_alloc_of_read {w : α} (hw : h.read a = some w) : (h.alloc v).read a = some w :=
  (read_alloc_ne (lt_next hw).ne).trans hw

/-- An object found after an allocation is the new one, or was there before. -/
theorem read_alloc_cases {w : α} (hw : (h.alloc v).read a = some w) :
    (a = h.next ∧ w = v) ∨ h.read a = some w := by
  by_cases ha : a = h.next
  · subst ha
    rw [read_alloc_next] at hw
    cases hw
    exact Or.inl ⟨rfl, rfl⟩
  · rw [read_alloc_ne ha] at hw
    exact Or.inr hw

@[simp] theorem read_modify_self : (h.modify a f).read a = (h.read a).map f := if_pos rfl

theorem read_modify_ne (hab : b ≠ a) : (h.modify a f).read b = h.read b := if_neg hab

/-- An object found after a change is the changed one, or another that was there before. -/
theorem read_modify_cases {w : α} (hw : (h.modify a f).read b = some w) :
    (b = a ∧ ∃ v, h.read a = some v ∧ w = f v) ∨ (b ≠ a ∧ h.read b = some w) := by
  by_cases hb : b = a
  · subst hb
    rw [read_modify_self] at hw
    obtain ⟨v, hv, rfl⟩ := Option.map_eq_some_iff.1 hw
    exact Or.inl ⟨rfl, v, hv, rfl⟩
  · rw [read_modify_ne hb] at hw
    exact Or.inr ⟨hb, hw⟩

/-- The same for a change of an object that is known. -/
theorem read_modify_known {w : α} (hv : h.read a = some v) (hw : (h.modify a f).read b = some w) :
    (b = a ∧ w = f v) ∨ h.read b = some w := by
  rcases read_modify_cases hw with ⟨rfl, v', hv', rfl⟩ | ⟨-, hb⟩
  · rw [hv] at hv'
    cases hv'
    exact Or.inl ⟨rfl, rfl⟩
  · exact Or.inr hb

@[simp] theorem read_free_self : (h.free a).read a = none := if_pos rfl

theorem read_free_ne (hab : b ≠ a) : (h.free a).read b = h.read b := if_neg hab

/-- The object at an address has been deleted. -/
def Gone (h : Heap α) (a : ℕ) : Prop := a < h.next ∧ h.read a = none

/-- An address is not handed out twice, so a deleted object stays deleted. -/
theorem Gone.alloc (hg : h.Gone a) : (h.alloc v).Gone a :=
  ⟨Nat.lt_succ_of_lt hg.1, (read_alloc_ne hg.1.ne).trans hg.2⟩

theorem Gone.modify (hg : h.Gone a) : (h.modify b f).Gone a := by
  refine ⟨hg.1, ?_⟩
  by_cases hab : a = b
  · rw [← hab, read_modify_self, hg.2]
    rfl
  · rw [read_modify_ne hab]
    exact hg.2

theorem Gone.free (hg : h.Gone a) : (h.free b).Gone a := by
  refine ⟨hg.1, ?_⟩
  by_cases hab : a = b
  · rw [hab, read_free_self]
  · rw [read_free_ne hab]
    exact hg.2

end Heap
