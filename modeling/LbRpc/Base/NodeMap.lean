import Mathlib.Data.List.Nodup
import Mathlib.Data.List.Perm.Basic
import Mathlib.Data.List.TakeWhile
import Mathlib.Data.Nat.Notation
import Mathlib.Tactic.Common

/-!
# Maps of nodes, and the iterators over them

A map that keeps each entry in a node of its own, as chained hash tables do. An iterator is
the address of a node (`none` is the end), so that it stays valid while its node lives,
whatever else comes and goes, and cannot be advanced once the node is erased. `nodes` are
in the order of a walk; a lookup that makes room may put them into another order.

* `NodeMap.next_of_split`: how a walk gets from a node to the one behind it.
* `NodeMap.next_erase`: **an iterator whose node is erased has no next**.
* `NodeMap.find?_eq_some`: the entry of a key.
-/

/-- An entry, and the address of its node. -/
structure Node (κ υ : Type*) where
  addr : ℕ
  key : κ
  value : υ

/-- A map of nodes. `resize` is the order that the nodes get when room is made. -/
structure NodeMap (κ υ : Type*) where
  nodes : List (Node κ υ)
  resize : List (Node κ υ) → List (Node κ υ)
  addrs : (nodes.map Node.addr).Nodup
  keys : (nodes.map Node.key).Nodup
  perm : ∀ l, (resize l).Perm l

namespace NodeMap

variable {κ υ : Type*} {m m' : NodeMap κ υ} {a : ℕ} {x : Node κ υ} {l r : List (Node κ υ)}

/-- The iterator at the first node. -/
def first (m : NodeMap κ υ) : Option ℕ := m.nodes.head?.map Node.addr

/-- The node at an address, if one lives there. -/
def deref (a : ℕ) (m : NodeMap κ υ) : Option (Node κ υ) := m.nodes.find? fun x => x.addr = a

/-- The iterator behind the one at `a`; there is none if no node lives at `a`. -/
def next (a : ℕ) (m : NodeMap κ υ) : Option (Option ℕ) :=
  match m.nodes.dropWhile fun x => x.addr ≠ a with
  | [] => none
  | _ :: rest => some (rest.head?.map Node.addr)

/-- The map without the node at `a`. -/
def erase (a : ℕ) (m : NodeMap κ υ) : NodeMap κ υ where
  nodes := m.nodes.filter fun x => x.addr ≠ a
  resize := m.resize
  addrs := m.addrs.sublist (List.filter_sublist.map Node.addr)
  keys := m.keys.sublist (List.filter_sublist.map Node.key)
  perm := m.perm

/-- The nodes after room is made. -/
def makeRoom (m : NodeMap κ υ) : NodeMap κ υ where
  nodes := m.resize m.nodes
  resize := m.resize
  addrs := ((m.perm m.nodes).map Node.addr).nodup_iff.2 m.addrs
  keys := ((m.perm m.nodes).map Node.key).nodup_iff.2 m.keys
  perm := m.perm

/-- An address at which no node lives. -/
def fresh (m : NodeMap κ υ) : ℕ := (m.nodes.map Node.addr).max?.getD 0 + 1

theorem fresh_notMem (m : NodeMap κ υ) : m.fresh ∉ m.nodes.map Node.addr := by
  intro h
  have hle : m.fresh ≤ (m.nodes.map Node.addr).max?.getD 0 := List.le_max?_getD_of_mem h
  unfold fresh at hle
  omega

variable [DecidableEq κ]

/-- The value of a key. -/
def find? (k : κ) (m : NodeMap κ υ) : Option υ := (m.nodes.find? fun x => x.key = k).map Node.value

theorem notMem_keys {k : κ} (h : m.find? k = none) : k ∉ m.nodes.map Node.key := by
  unfold find? at h
  rw [Option.map_eq_none_iff, List.find?_eq_none] at h
  intro hk
  obtain ⟨x, hx, rfl⟩ := List.mem_map.1 hk
  simpa using h x hx

/-- A node for a key that has none. -/
def insertNew (k : κ) (v : υ) (m : NodeMap κ υ) (h : m.find? k = none) : NodeMap κ υ where
  nodes := ⟨m.fresh, k, v⟩ :: m.nodes
  resize := m.resize
  addrs := List.nodup_cons.2 ⟨m.fresh_notMem, m.addrs⟩
  keys := List.nodup_cons.2 ⟨notMem_keys h, m.keys⟩
  perm := m.perm

/-- Subscripting makes room, and inserts the value `d` for a key that is missing. -/
def subscript (k : κ) (d : υ) (m : NodeMap κ υ) : υ × NodeMap κ υ :=
  match h : m.makeRoom.find? k with
  | some v => (v, m.makeRoom)
  | none => (d, m.makeRoom.insertNew k d h)

/-! ## Walks -/

omit [DecidableEq κ] in
/-- No node in front of `x` has its address. -/
theorem addr_ne_of_split (h : m.nodes = l ++ x :: r) : ∀ y ∈ l, y.addr ≠ x.addr := by
  have hnodup := m.addrs
  rw [h, List.map_append, List.map_cons] at hnodup
  intro y hy heq
  have hdis := List.disjoint_of_nodup_append hnodup
  exact hdis (List.mem_map_of_mem hy) (heq ▸ List.mem_cons_self)

omit [DecidableEq κ] in
theorem deref_of_split (h : m.nodes = l ++ x :: r) : m.deref x.addr = some x := by
  unfold deref
  rw [h, List.find?_append, List.find?_eq_none.2]
  · simp
  · intro y hy
    simpa using addr_ne_of_split h y hy

omit [DecidableEq κ] in
/-- From a node the walk goes to the one behind it. -/
theorem next_of_split (h : m.nodes = l ++ x :: r) : m.next x.addr = some (r.head?.map Node.addr) := by
  have hdrop : (m.nodes.dropWhile fun y => y.addr ≠ x.addr) = x :: r := by
    rw [h, List.dropWhile_append_of_pos]
    · simp
    · intro y hy
      simpa using addr_ne_of_split h y hy
  unfold next
  rw [hdrop]

omit [DecidableEq κ] in
/-- **An iterator whose node is erased cannot be advanced.** -/
theorem next_erase (a : ℕ) (m : NodeMap κ υ) : (m.erase a).next a = none := by
  have hdrop : ((m.erase a).nodes.dropWhile fun y => y.addr ≠ a) = [] := by
    rw [List.dropWhile_eq_nil_iff]
    intro y hy
    exact (List.mem_filter.1 hy).2
  unfold next
  rw [hdrop]

/-- The entry of a key is that of the one node with this key. -/
theorem find?_eq_some {k : κ} {v : υ} : m.find? k = some v ↔ ∃ x ∈ m.nodes, x.key = k ∧ x.value = v := by
  unfold find?
  constructor
  · intro h
    obtain ⟨x, hx, hv⟩ := Option.map_eq_some_iff.1 h
    have hk := List.find?_some hx
    exact ⟨x, List.mem_of_find?_eq_some hx, by simpa using hk, hv⟩
  · rintro ⟨x, hx, rfl, rfl⟩
    obtain ⟨y, hy⟩ : ∃ y, (m.nodes.find? fun y => y.key = x.key) = some y := by
      rw [← Option.isSome_iff_exists, List.find?_isSome]
      exact ⟨x, hx, by simp⟩
    have hkey : y.key = x.key := by simpa using List.find?_some hy
    have hsame : y = x := List.inj_on_of_nodup_map m.keys (List.mem_of_find?_eq_some hy) hx hkey
    rw [hy, hsame]
    rfl

end NodeMap
