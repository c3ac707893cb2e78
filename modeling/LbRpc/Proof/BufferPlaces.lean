import LbRpc.Base.IntrusiveList
import LbRpc.Base.Runs
import LbRpc.Reactor.PoolHeap
import Mathlib.Algebra.BigOperators.Group.List.Basic
import Mathlib.Algebra.Ring.Int.Defs

/-!
# Where the buffers are

Every buffer that was ever made is in the free list of its class or with one holder. A
buffer that is in no free list is out, and a call changes which buffers are out only at the
pointer of its own object.

* `PoolOK`: the lists and the counter of the pool, for given free lists.
* `allocBuf_spec`, `revert_spec`, `setBuf_spec`: what the primitives do to the buffers
  that are out.
* `Swaps`: a part of a call gives back one buffer and takes one, each at most; `start_spec`,
  `finish_spec`: every part does.
* `PoolUsers.buffers_in_place`: what holds whichever way the calls of all objects interleave.
-/

namespace LbRpc

open IntrusiveList

theorem bind_ok {α β : Type} {x : Except Crash α} {f : α → Except Crash β} {r : β} :
    (x >>= f) = .ok r ↔ ∃ a, x = .ok a ∧ f a = .ok r := by
  cases x with
  | error e =>
    constructor
    · rintro ⟨⟩
    · rintro ⟨_, ⟨⟩, _⟩
  | ok a =>
    constructor
    · exact fun h => ⟨a, rfl, h⟩
    · rintro ⟨_, ⟨⟩, hr⟩
      exact hr

theorem MemCap.size_inj {c d : MemCap} (h : c.size = d.size) : c = d := by
  cases c <;> cases d <;> first | rfl | exact absurd h (by decide)

theorem MemCap.size_mod (c : MemCap) : c.size = c.size / 1024 * 1024 := by
  cases c <;> decide

namespace IOBuf

variable {b b' other : IOBuf}

theorem adjust_capacity (h : b.adjust = .ok b') : b'.capacity = b.capacity := by
  unfold adjust at h
  split at h
  · split at h
    · split at h <;> cases h
      rfl
    · cases h
      rfl
  · cases h
    rfl

theorem copy_capacity (h : b.copy other = .ok b') : b'.capacity = b.capacity := by
  unfold copy at h
  split at h <;> cases h
  rfl

theorem append_capacity {bs : List UInt8} (h : b.append bs = .ok b') : b'.capacity = b.capacity := by
  unfold append at h
  split at h <;> cases h
  rfl

end IOBuf

namespace PoolHeap

variable {p p' : PoolHeap} {free free' : MemCap → List BufAddr} {a x : BufAddr} {junk : ℤ → UInt8}

/-! ## The pool -/

/-- The `next` field at an address. -/
def nextAt (p : PoolHeap) (a : BufAddr) : Option (Option BufAddr) := (p.heap.read a).map BufNode.next

/-- The capacity at an address. -/
def capacityAt (p : PoolHeap) (a : BufAddr) : ℤ :=
  match p.heap.read a with
  | none => 0
  | some b => b.buf.capacity

/-- The capacities of all buffers ever made. -/
def totalCapacity (p : PoolHeap) : ℤ := ((List.range p.heap.next).map p.capacityAt).sum

/-- **The pool, with these free lists.** -/
structure PoolOK (p : PoolHeap) (free : MemCap → List BufAddr) : Prop where
  links : ∀ c, Links p.nextAt (p.pool c) (free c)
  waiting : ∀ c, ∀ a ∈ free c, ∃ b, p.heap.read a = some b ∧ b.buf.capacity = c.size ∧
    b.buf.length = 0 ∧ b.buf.head = 0
  classed : ∀ a b, p.heap.read a = some b → ∃ c : MemCap, b.buf.capacity = c.size
  lives : ∀ a, a < p.heap.next → ∃ b, p.heap.read a = some b
  total : p.totalMem * 1024 = p.totalCapacity
  limit : p.totalMem < extraMemLimit

/-- A buffer that is in no free list. -/
def Out (p : PoolHeap) (free : MemCap → List BufAddr) (a : BufAddr) : Prop :=
  (∃ b, p.heap.read a = some b) ∧ ∀ c, a ∉ free c

/-- The free lists have no buffer in common. -/
theorem PoolOK.disjoint (h : PoolOK p free) {c d : MemCap} (hc : a ∈ free c) (hd : a ∈ free d) : c = d := by
  obtain ⟨b, hb, hbc, -⟩ := h.waiting c a hc
  obtain ⟨b', hb', hbd, -⟩ := h.waiting d a hd
  rw [hb] at hb'
  cases hb'
  exact MemCap.size_inj (hbc.symm.trans hbd)

theorem capacityAt_eq {b : BufNode} (h : p.heap.read a = some b) : p.capacityAt a = b.buf.capacity := by
  rw [capacityAt, h]

/-- Changes that keep all capacities keep their sum. -/
theorem totalCapacity_congr (hnext : p'.heap.next = p.heap.next)
    (hcap : ∀ a, p'.capacityAt a = p.capacityAt a) : p'.totalCapacity = p.totalCapacity := by
  rw [totalCapacity, totalCapacity, hnext]
  congr 1
  exact List.map_congr_left fun a _ => hcap a

/-- A new buffer adds its capacity. -/
theorem totalCapacity_alloc {b : BufNode} (hnext : p'.heap = p.heap.alloc b) :
    p'.totalCapacity = p.totalCapacity + b.buf.capacity := by
  have hself : p'.capacityAt p.heap.next = b.buf.capacity :=
    capacityAt_eq (by rw [hnext]; exact Heap.read_alloc_next)
  have hother : ∀ a ∈ List.range p.heap.next, p'.capacityAt a = p.capacityAt a := by
    intro a ha
    have hne : a ≠ p.heap.next := by
      have := List.mem_range.1 ha
      omega
    rw [capacityAt, capacityAt, hnext, Heap.read_alloc_ne hne]
  have hlen : p'.heap.next = p.heap.next + 1 := by rw [hnext]; rfl
  rw [totalCapacity, hlen, List.range_succ, List.map_append, List.sum_append, List.map_congr_left hother]
  simp [totalCapacity, hself]

/-! ## What the primitives do -/

/-- A buffer that is out changes, but for its capacity. -/
theorem PoolOK.modify (h : PoolOK p free) (ha : Out p free a) {f : BufNode → BufNode}
    (hf : ∀ b, p.heap.read a = some b → (f b).buf.capacity = b.buf.capacity) :
    PoolOK { p with heap := p.heap.modify a f } free ∧
      ∀ x, Out { p with heap := p.heap.modify a f } free x ↔ Out p free x := by
  have hne : ∀ x, x ≠ a → (p.heap.modify a f).read x = p.heap.read x := fun x hx => Heap.read_modify_ne hx
  have hfree : ∀ c, ∀ x ∈ free c, x ≠ a := fun c x hx hxa => ha.2 c (hxa ▸ hx)
  have hcap : ∀ x b, (p.heap.modify a f).read x = some b →
      ∃ b', p.heap.read x = some b' ∧ b.buf.capacity = b'.buf.capacity := by
    intro x b hx
    rcases Heap.read_modify_cases hx with ⟨rfl, b', hb', rfl⟩ | ⟨-, hx'⟩
    · exact ⟨b', hb', hf b' hb'⟩
    · exact ⟨b, hx', rfl⟩
  have hlive : ∀ x, (∃ b, p.heap.read x = some b) ↔ ∃ b, (p.heap.modify a f).read x = some b := by
    intro x
    by_cases hxa : x = a
    · subst hxa
      rw [Heap.read_modify_self]
      cases p.heap.read x <;> simp
    · rw [hne x hxa]
  refine ⟨{
    links := ?links, waiting := ?waiting, classed := ?classed, lives := ?lives, total := ?total
    limit := h.limit }, ?out⟩
  case links =>
    intro c
    refine (h.links c).congr fun x hx => ?_
    rw [nextAt, nextAt, hne x (hfree c x hx)]
  case waiting =>
    intro c x hx
    obtain ⟨b, hb, hrest⟩ := h.waiting c x hx
    exact ⟨b, (hne x (hfree c x hx)).trans hb, hrest⟩
  case classed =>
    intro x b hb
    obtain ⟨b', hb', hcb⟩ := hcap x b hb
    rw [hcb]
    exact h.classed x b' hb'
  case lives =>
    exact fun x hx => (hlive x).1 (h.lives x hx)
  case total =>
    refine h.total.trans (Eq.symm ?_)
    refine totalCapacity_congr (p := p) rfl fun x => ?_
    rcases hx : (p.heap.modify a f).read x with _ | b
    · have hnone : p.heap.read x = none := by
        rcases hr : p.heap.read x with _ | b
        · rfl
        · obtain ⟨b', hb'⟩ := (hlive x).1 ⟨b, hr⟩
          rw [hx] at hb'
          cases hb'
      simp only [capacityAt, hx, hnone]
    · obtain ⟨b', hb', hcb⟩ := hcap x b hx
      rw [capacityAt_eq hx, capacityAt_eq hb', hcb]
  case out =>
    intro x
    simp only [Out]
    rw [hlive x]

/-- The front of a free list is taken off. -/
theorem PoolOK.takeFront (h : PoolOK p free) {c : MemCap} {b : BufNode} (hp : p.pool c = some a)
    (hb : p.heap.read a = some b) : ∃ t, free c = a :: t ∧
      PoolOK { p with pool := Function.update p.pool c b.next } (Function.update free c t) ∧
      ∀ x, Out { p with pool := Function.update p.pool c b.next } (Function.update free c t) x ↔
        Out p free x ∨ x = a := by
  have hlinks := h.links c
  rw [hp] at hlinks
  obtain ⟨q, t, ht, hq, hrest⟩ := hlinks.uncons
  have hqb : q = b.next := by
    rw [nextAt, hb] at hq
    cases hq
    rfl
  subst hqb
  have hnd := hlinks.nodup
  rw [ht, List.nodup_cons] at hnd
  have hsub : ∀ d x, x ∈ Function.update free c t d → x ∈ free d := by
    intro d x hx
    by_cases hd : d = c
    · subst hd
      rw [Function.update_self] at hx
      rw [ht]
      exact List.mem_cons_of_mem a hx
    · rwa [Function.update_of_ne hd] at hx
  refine ⟨t, ht, ⟨?_, ?_, h.classed, h.lives, h.total, h.limit⟩, ?_⟩
  · intro d
    by_cases hd : d = c
    · subst hd
      simp only [Function.update_self]
      exact hrest
    · simp only [Function.update_of_ne hd]
      exact h.links d
  · exact fun d x hx => h.waiting d x (hsub d x hx)
  · intro x
    constructor
    · rintro ⟨hlive, hnot⟩
      by_cases hxa : x = a
      · exact Or.inr hxa
      · refine Or.inl ⟨hlive, fun d hd => ?_⟩
        by_cases hdc : d = c
        · subst hdc
          rw [ht] at hd
          have hx := hnot d
          rw [Function.update_self] at hx
          exact hx ((List.mem_cons.1 hd).resolve_left hxa)
        · have hx := hnot d
          rw [Function.update_of_ne hdc] at hx
          exact hx hd
    · rintro (⟨hlive, hnot⟩ | rfl)
      · exact ⟨hlive, fun d hd => hnot d (hsub d x hd)⟩
      · refine ⟨⟨b, hb⟩, fun d hd => ?_⟩
        have hdc : d = c := h.disjoint (hsub d x hd) (by rw [ht]; exact List.mem_cons_self)
        subst hdc
        rw [Function.update_self] at hd
        exact hnd.1 hd

/-- A buffer that is out and was reset is put in front of the list of its class. -/
theorem PoolOK.putFront (h : PoolOK p free) (ha : Out p free a) {c : MemCap} {b : BufNode}
    (hb : p.heap.read a = some b) (hnext : b.next = p.pool c) (hcap : b.buf.capacity = c.size)
    (hlen : b.buf.length = 0) (hhead : b.buf.head = 0) :
    PoolOK { p with pool := Function.update p.pool c (some a) } (Function.update free c (a :: free c)) ∧
      ∀ x, Out { p with pool := Function.update p.pool c (some a) }
        (Function.update free c (a :: free c)) x ↔ Out p free x ∧ x ≠ a := by
  refine ⟨⟨?_, ?_, h.classed, h.lives, h.total, h.limit⟩, ?_⟩
  · intro d
    by_cases hd : d = c
    · subst hd
      simp only [Function.update_self]
      refine (h.links d).push ?_ fun x _ => rfl
      rw [← hnext]
      show (p.heap.read a).map BufNode.next = _
      rw [hb]
      rfl
    · simp only [Function.update_of_ne hd]
      exact h.links d
  · intro d x hx
    by_cases hd : d = c
    · subst hd
      rw [Function.update_self] at hx
      rcases List.mem_cons.1 hx with rfl | hx
      · exact ⟨b, hb, hcap, hlen, hhead⟩
      · exact h.waiting d x hx
    · rw [Function.update_of_ne hd] at hx
      exact h.waiting d x hx
  · intro x
    constructor
    · rintro ⟨hlive, hnot⟩
      refine ⟨⟨hlive, fun d hd => hnot d ?_⟩, fun hxa => hnot c ?_⟩
      · by_cases hdc : d = c
        · subst hdc
          rw [Function.update_self]
          exact List.mem_cons_of_mem a hd
        · rwa [Function.update_of_ne hdc]
      · rw [Function.update_self, hxa]
        exact List.mem_cons_self
    · rintro ⟨⟨hlive, hnot⟩, hxa⟩
      refine ⟨hlive, fun d hd => ?_⟩
      by_cases hdc : d = c
      · subst hdc
        rw [Function.update_self] at hd
        exact hnot d ((List.mem_cons.1 hd).resolve_left hxa)
      · rw [Function.update_of_ne hdc] at hd
        exact hnot d hd

/-- A new buffer is made, below the limit. -/
theorem PoolOK.make (h : PoolOK p free) (junk : ℤ → UInt8) {c : MemCap}
    (hlim : p.totalMem + c.size / 1024 < extraMemLimit) :
    PoolOK { p with heap := p.heap.alloc ⟨.new c.size junk, none⟩, totalMem := p.totalMem + c.size / 1024 }
        free ∧
      ¬Out p free p.heap.next ∧
      ∀ x, Out { p with heap := p.heap.alloc ⟨.new c.size junk, none⟩,
                        totalMem := p.totalMem + c.size / 1024 } free x ↔
        Out p free x ∨ x = p.heap.next := by
  have hold : ∀ x, x ≠ p.heap.next →
      (p.heap.alloc ⟨.new c.size junk, none⟩).read x = p.heap.read x := fun x hx => Heap.read_alloc_ne hx
  have hfree : ∀ d, ∀ x ∈ free d, x ≠ p.heap.next := by
    intro d x hx hxn
    obtain ⟨b, hb, -⟩ := h.waiting d x hx
    rw [hxn, Heap.read_next] at hb
    cases hb
  refine ⟨{
    links := ?links, waiting := ?waiting, classed := ?classed, lives := ?lives, total := ?total
    limit := hlim }, ?fresh, ?out⟩
  case links =>
    intro d
    refine (h.links d).congr fun x hx => ?_
    rw [nextAt, nextAt, hold x (hfree d x hx)]
  case waiting =>
    intro d x hx
    obtain ⟨b, hb, hrest⟩ := h.waiting d x hx
    exact ⟨b, (hold x (hfree d x hx)).trans hb, hrest⟩
  case classed =>
    intro x b hb
    rcases Heap.read_alloc_cases hb with ⟨-, rfl⟩ | hb'
    · exact ⟨c, rfl⟩
    · exact h.classed x b hb'
  case lives =>
    intro x hx
    by_cases hxn : x = p.heap.next
    · subst hxn
      exact ⟨_, Heap.read_alloc_next⟩
    · rw [hold x hxn]
      have hlt : x < p.heap.next + 1 := hx
      exact h.lives x (by omega)
  case total =>
    have hsum : totalCapacity { p with
        heap := p.heap.alloc ⟨.new c.size junk, none⟩, totalMem := p.totalMem + c.size / 1024 } =
        p.totalCapacity + c.size := totalCapacity_alloc (b := ⟨.new c.size junk, none⟩) rfl
    have hc := c.size_mod
    rw [hsum, ← h.total]
    show (p.totalMem + c.size / 1024) * 1024 = p.totalMem * 1024 + c.size
    omega
  case fresh =>
    rintro ⟨⟨b, hb⟩, -⟩
    rw [Heap.read_next] at hb
    cases hb
  case out =>
    intro x
    by_cases hx : x = p.heap.next
    · subst hx
      refine ⟨fun _ => Or.inr rfl, fun _ => ⟨⟨_, Heap.read_alloc_next⟩, fun d hd => hfree d _ hd rfl⟩⟩
    · simp only [Out, hold x hx, hx, or_false]

theorem classOf_size (c : MemCap) : classOf c.size = some c := by
  cases c <;> decide

/-- **`alloc_buf`** ends at the memory limit, is asked for too much, or takes an empty buffer
of the class out of the pool. -/
theorem allocBuf_spec (h : PoolOK p free) (n : ℤ) (junk : ℤ → UInt8) :
    p.allocBuf n junk = .error .memoryLimit ∨
      (MemCap.m8M.size < n ∧ p.allocBuf n junk = .ok (none, p)) ∨
      ∃ a p' free' c b, p.allocBuf n junk = .ok (some a, p') ∧ BufPool.index n = some c ∧
        PoolOK p' free' ∧ ¬Out p free a ∧ (∀ x, Out p' free' x ↔ Out p free x ∨ x = a) ∧
        p'.heap.read a = some b ∧ b.buf.capacity = c.size ∧ b.buf.length = 0 ∧ b.buf.head = 0 := by
  unfold allocBuf
  rcases BufPool.index_cases n with ⟨hbig, hnone⟩ | ⟨c, hc, hn⟩
  · rw [hnone]
    exact Or.inr (Or.inl ⟨hbig, rfl⟩)
  rw [hc]
  dsimp only
  rcases hp : p.pool c with _ | a
  · dsimp only
    by_cases hlim : extraMemLimit ≤ p.totalMem + c.size / 1024
    · rw [if_pos hlim]
      exact Or.inl rfl
    · rw [if_neg hlim]
      obtain ⟨hok, hnew, hout⟩ := h.make junk (Int.not_le.1 hlim)
      exact Or.inr (Or.inr ⟨_, _, free, c, _, rfl, rfl, hok, hnew, hout, Heap.read_alloc_next, rfl, rfl, rfl⟩)
  · -- the head of the list is a buffer that waits
    have hlinks := h.links c
    rw [hp] at hlinks
    obtain ⟨q, t, ht, -, -⟩ := hlinks.uncons
    have ha : a ∈ free c := by rw [ht]; exact List.mem_cons_self
    obtain ⟨b, hb, hcap, hlen, hhead⟩ := h.waiting c a ha
    obtain ⟨t', -, hok, hout⟩ := h.takeFront hp hb
    have houtA := (hout a).2 (Or.inr rfl)
    obtain ⟨hok', hout'⟩ := hok.modify houtA (f := fun b => { b with next := none }) fun _ _ => rfl
    dsimp only
    rw [hb]
    refine Or.inr (Or.inr ⟨a, _, _, c, { b with next := none }, rfl, rfl, hok', ?_, ?_, ?_, hcap, hlen, hhead⟩)
    · exact fun hA => hA.2 c ha
    · exact fun x => (hout' x).trans (hout x)
    · show (p.heap.modify a _).read a = _
      rw [Heap.read_modify_self, hb]
      rfl

/-- **`revert`** of a buffer that is out puts it into its list. -/
theorem revert_spec (h : PoolOK p free) (ha : Out p free a) :
    ∃ p' free', p.revert a = .ok p' ∧ PoolOK p' free' ∧ ∀ x, Out p' free' x ↔ Out p free x ∧ x ≠ a := by
  obtain ⟨⟨b, hb⟩, -⟩ := id ha
  obtain ⟨c, hc⟩ := h.classed a b hb
  obtain ⟨hok, hout⟩ := h.modify ha (f := fun b => ⟨b.buf.clear, p.pool c⟩) fun _ _ => rfl
  have hread : (p.heap.modify a fun b => ⟨b.buf.clear, p.pool c⟩).read a =
      some ⟨b.buf.clear, p.pool c⟩ := by
    rw [Heap.read_modify_self, hb]
    rfl
  obtain ⟨hok', hout'⟩ := hok.putFront ((hout a).2 ha) hread rfl hc rfl rfl
  refine ⟨_, _, ?_, hok', fun x => (hout' x).trans (and_congr_left fun _ => hout x)⟩
  unfold revert
  rw [hb]
  dsimp only
  rw [hc, classOf_size]

/-- Writing to a buffer that is out changes no list. -/
theorem setBuf_spec (h : PoolOK p free) (ha : Out p free a) {b b' : IOBuf} (hb : p.buf a = .ok b)
    (hcap : b'.capacity = b.capacity) :
    PoolOK (p.setBuf a b') free ∧ ∀ x, Out (p.setBuf a b') free x ↔ Out p free x := by
  refine h.modify ha fun n hn => ?_
  rw [buf, hn] at hb
  cases hb
  exact hcap

/-! ## The calls -/

/-- **A call at the pointer `rb`**, which becomes `rb'`: the buffers that are out change at
these two places only. -/
structure Swaps (p : PoolHeap) (free : MemCap → List BufAddr) (rb : Option BufAddr) (p' : PoolHeap)
    (free' : MemCap → List BufAddr) (rb' : Option BufAddr) : Prop where
  ok : PoolOK p' free'
  out : ∀ x, Out p' free' x ↔ (Out p free x ∧ rb ≠ some x) ∨ rb' = some x
  fresh : ∀ x, rb' = some x → rb = some x ∨ ¬Out p free x

/-- The pointer points to a buffer that is out. -/
def Held (p : PoolHeap) (free : MemCap → List BufAddr) (rb : Option BufAddr) : Prop :=
  ∀ x, rb = some x → Out p free x

variable {rb rb' : Option BufAddr}

/-- The same buffers are out. -/
theorem Swaps.same (h : PoolOK p' free') (hrb : Held p free rb)
    (hout : ∀ x, Out p' free' x ↔ Out p free x) : Swaps p free rb p' free' rb := by
  refine ⟨h, fun x => ?_, fun x hx => Or.inl hx⟩
  rw [hout x]
  constructor
  · intro hx
    by_cases hrx : rb = some x
    · exact Or.inr hrx
    · exact Or.inl ⟨hx, hrx⟩
  · rintro (⟨hx, -⟩ | hx)
    · exact hx
    · exact hrb x hx

/-- A write to the buffer that is held behind. -/
theorem Swaps.write (h : Swaps p free rb p' free' (some a)) {b b' : IOBuf} (hb : p'.buf a = .ok b)
    (hcap : b'.capacity = b.capacity) : Swaps p free rb (p'.setBuf a b') free' (some a) := by
  obtain ⟨hok, hout⟩ := setBuf_spec h.ok ((h.out a).2 (Or.inr rfl)) hb hcap
  exact ⟨hok, fun x => (hout x).trans (h.out x), h.fresh⟩

/-- The buffer that is held behind goes back. -/
theorem Swaps.giveBack (h : Swaps p free rb p' free' (some a)) (ha : rb = some a) {q : PoolHeap}
    (hq : p'.revert a = .ok q) : ∃ free'', Swaps p free rb q free'' none := by
  obtain ⟨q', free'', hq', hok, hout⟩ := revert_spec h.ok ((h.out a).2 (Or.inr rfl))
  rw [hq] at hq'
  cases hq'
  refine ⟨free'', hok, fun x => ?_, fun x hx => by cases hx⟩
  rw [hout x, h.out x]
  subst ha
  simp only [Option.some.injEq, reduceCtorEq, or_false]
  constructor
  · rintro ⟨⟨hx, hne⟩ | hxa, hxa'⟩
    · exact ⟨hx, hne⟩
    · exact absurd hxa.symm hxa'
  · rintro ⟨hx, hne⟩
    exact ⟨Or.inl ⟨hx, hne⟩, fun hxa => hne (by rw [hxa])⟩

/-- `reserve` finds room, or takes a buffer that nobody had. -/
theorem reserve_spec (h : PoolOK p free) (hrb : Held p free rb) {n : ℤ} {r : Reserved}
    (hr : p.reserve n junk rb = .ok (r, p')) :
    (r = .full ∧ p' = p) ∨ (∃ a free', r = .ready a ∧ Swaps p free rb p' free' (some a)) ∨
      ∃ a new_buf free', rb = some a ∧ r = .larger new_buf ∧ Swaps p free none p' free' (some new_buf) := by
  have htake : ∀ {a p' free'}, ¬Out p free a → PoolOK p' free' →
      (∀ x, Out p' free' x ↔ Out p free x ∨ x = a) → Swaps p free none p' free' (some a) := by
    intro a p' free' hnew hok hout
    refine ⟨hok, fun x => ?_, fun x hx => ?_⟩
    · simp only [hout x, ne_eq, reduceCtorEq, not_false_eq_true, and_true, Option.some.injEq, eq_comm]
    · cases hx
      exact Or.inr hnew
  unfold reserve at hr
  cases rb with
  | none =>
    obtain ⟨⟨got, q⟩, hq, hres⟩ := bind_ok.1 hr
    clear hr
    rcases allocBuf_spec h n junk with he | ⟨-, he⟩ | ⟨a, q', free', c, b, he, -, hok, hnew, hout, -⟩
    · rw [he] at hq
      cases hq
    · rw [he] at hq
      cases hq
      cases hres
      exact Or.inl ⟨rfl, rfl⟩
    · rw [he] at hq
      cases hq
      cases hres
      exact Or.inr (Or.inl ⟨a, free', rfl, htake hnew hok hout⟩)
  | some a =>
    obtain ⟨b, hb, hres⟩ := bind_ok.1 hr
    clear hr
    split at hres
    · cases hres
    split at hres
    · split at hres
      · cases hres
      obtain ⟨⟨got, q⟩, hq, hlarger⟩ := bind_ok.1 hres
      clear hres
      rcases allocBuf_spec h (n + b.length) junk with he | ⟨-, he⟩ |
        ⟨a', q', free', c, b', he, -, hok, hnew, hout, -⟩
      · rw [he] at hq
        cases hq
      · rw [he] at hq
        cases hq
        cases hlarger
        exact Or.inl ⟨rfl, rfl⟩
      · rw [he] at hq
        cases hq
        cases hlarger
        exact Or.inr (Or.inr ⟨a, a', free', rfl, rfl, htake hnew hok hout⟩)
    · cases hres
      exact Or.inr (Or.inl ⟨a, free, rfl, Swaps.same h hrb fun _ => Iff.rfl⟩)

/-- The end of a call writes to the buffer it is given. -/
theorem fill_spec (h : PoolOK p free) (ha : Out p free a) {e : BufCall} (hr : e.fill a p = .ok p') :
    PoolOK p' free ∧ ∀ x, Out p' free x ↔ Out p free x := by
  have hsame : PoolOK p free ∧ ∀ x, Out p free x ↔ Out p free x := ⟨h, fun _ => Iff.rfl⟩
  have happend : ∀ {bs : List UInt8}, (do return p.setBuf a (← (← p.buf a).append bs)) = Except.ok p' →
      PoolOK p' free ∧ ∀ x, Out p' free x ↔ Out p free x := by
    intro bs hput
    obtain ⟨b, hb, hput⟩ := bind_ok.1 hput
    obtain ⟨b', happ, hput⟩ := bind_ok.1 hput
    cases hput
    exact setBuf_spec h ha hb (IOBuf.append_capacity happ)
  unfold BufCall.fill at hr
  split at hr
  · unfold readFill at hr
    split at hr
    · cases hr
      exact hsame
    split at hr
    · cases hr
      exact hsame
    split at hr
    · cases hr
    · exact happend hr
  · exact happend hr
  · cases hr
    exact hsame

/-- `read_data` and `send_data`, up to their second use of the pool. -/
theorem beginFill_spec (h : PoolOK p free) (hrb : Held p free rb) {e : BufCall} {n : ℤ} {r : BufCall.Begun}
    (hr : e.beginFill n junk rb p = .ok (r, p')) :
    (∃ rb' free', r = .ended rb' ∧ Swaps p free rb p' free' rb') ∨
      ∃ a new_buf free', rb = some a ∧ r = .larger new_buf ∧ Swaps p free none p' free' (some new_buf) := by
  unfold BufCall.beginFill at hr
  obtain ⟨⟨room, q⟩, hq, hfill⟩ := bind_ok.1 hr
  clear hr
  rcases reserve_spec h hrb hq with ⟨rfl, rfl⟩ | ⟨a, free', rfl, hs⟩ | ⟨a, new_buf, free', hrba, rfl, hs⟩
  · cases hfill
    exact Or.inl ⟨rb, free, rfl, Swaps.same h hrb fun _ => Iff.rfl⟩
  · obtain ⟨q', hq', hfill⟩ := bind_ok.1 hfill
    cases hfill
    obtain ⟨hok, hout⟩ := fill_spec hs.ok ((hs.out a).2 (Or.inr rfl)) hq'
    exact Or.inl ⟨some a, free', rfl, hok, fun x => (hout x).trans (hs.out x), hs.fresh⟩
  · cases hfill
    exact Or.inr ⟨a, new_buf, free', hrba, rfl, hs⟩

/-- **A call up to its second use of the pool** swaps the buffer of its own object, or takes
a larger one. -/
theorem start_spec (h : PoolOK p free) (hrb : Held p free rb) {e : BufCall} {r : BufCall.Begun}
    (hr : e.start rb p = .ok (r, p')) :
    (∃ rb' free', r = .ended rb' ∧ Swaps p free rb p' free' rb') ∨
      ∃ a new_buf free', rb = some a ∧ r = .larger new_buf ∧ Swaps p free none p' free' (some new_buf) := by
  have hsame : Swaps p free rb p free rb := Swaps.same h hrb fun _ => Iff.rfl
  have hended : ∀ {c : Except Crash (Option BufAddr × PoolHeap)}, BufCall.ended c = .ok (r, p') →
      (∀ rb' q, c = .ok (rb', q) → ∃ free', Swaps p free rb q free' rb') →
      ∃ rb' free', r = .ended rb' ∧ Swaps p free rb p' free' rb' := by
    intro c hc hs
    obtain ⟨⟨rb', q⟩, hq, hc⟩ := bind_ok.1 hc
    cases hc
    obtain ⟨free', hs⟩ := hs rb' p' hq
    exact ⟨rb', free', rfl, hs⟩
  cases e with
  | pop len =>
    refine Or.inl (hended hr fun rb' q hq => ?_)
    unfold pop at hq
    split at hq
    · cases hq
    obtain ⟨b, hb, hq⟩ := bind_ok.1 hq
    split at hq
    · have hw := hsame.write hb (show (b.pop len).capacity = b.capacity from rfl)
      split at hq
      · obtain ⟨q', hq', hq⟩ := bind_ok.1 hq
        cases hq
        exact hw.giveBack rfl hq'
      · cases hq
        exact ⟨free, hw⟩
    · cases hq
  | clear =>
    refine Or.inl (hended hr fun rb' q hq => ?_)
    unfold clear at hq
    split at hq
    · cases hq
      exact ⟨free, hsame⟩
    obtain ⟨q', hq', hq⟩ := bind_ok.1 hq
    cases hq
    exact hsame.giveBack rfl hq'
  | adjust =>
    refine Or.inl (hended hr fun rb' q hq => ?_)
    unfold adjust at hq
    split at hq
    · cases hq
      exact ⟨free, hsame⟩
    obtain ⟨b, hb, hq⟩ := bind_ok.1 hq
    obtain ⟨b', hadj, hq⟩ := bind_ok.1 hq
    cases hq
    exact ⟨free, hsame.write hb (IOBuf.adjust_capacity hadj)⟩
  | readData fionread got junk =>
    cases fionread with
    | none =>
      cases hr
      exact Or.inl ⟨rb, free, rfl, hsame⟩
    | some need_read => exact beginFill_spec h hrb hr
  | sendData bs junk => exact beginFill_spec h hrb hr
  | write2fd room =>
    refine Or.inl (hended hr fun rb' q hq => ?_)
    unfold write2fd at hq
    split at hq
    · cases hq
    obtain ⟨b, hb, hq⟩ := bind_ok.1 hq
    split at hq
    · cases hq
    split at hq
    · cases hq
      exact ⟨free, hsame⟩
    obtain ⟨taken, htaken, hq⟩ := bind_ok.1 hq
    split at hq
    · cases hq
      exact ⟨free, hsame⟩
    obtain ⟨b', hadj, hq⟩ := bind_ok.1 hq
    cases hq
    exact ⟨free, hsame.write hb ((IOBuf.adjust_capacity hadj).trans rfl)⟩

/-- **A call from its second use of the pool on** gives the smaller buffer back. -/
theorem finish_spec (h : PoolOK p free) {new_buf : BufAddr} (ha : Out p free a) (hn : Out p free new_buf)
    (hne : new_buf ≠ a) {e : BufCall} (hr : e.finish a new_buf p = .ok p') :
    ∃ free', Swaps p free (some a) p' free' none := by
  obtain ⟨q, hcopy, hr⟩ := bind_ok.1 hr
  obtain ⟨q', hrev, hfill⟩ := bind_ok.1 hr
  obtain ⟨nb, hnb, hcopy⟩ := bind_ok.1 hcopy
  obtain ⟨b, hb, hcopy⟩ := bind_ok.1 hcopy
  obtain ⟨nb', hnb', hcopy⟩ := bind_ok.1 hcopy
  cases hcopy
  obtain ⟨hok1, hout1⟩ := setBuf_spec h hn hnb (IOBuf.copy_capacity hnb')
  obtain ⟨q'', free', hrev', hok2, hout2⟩ := revert_spec hok1 ((hout1 a).2 ha)
  rw [hrev] at hrev'
  cases hrev'
  have hn2 : Out q' free' new_buf := (hout2 new_buf).2 ⟨(hout1 new_buf).2 hn, hne⟩
  obtain ⟨hok3, hout3⟩ := fill_spec hok2 hn2 hfill
  refine ⟨free', hok3, fun x => ?_, fun x hx => by cases hx⟩
  rw [hout3 x, hout2 x, hout1 x]
  simp only [ne_eq, Option.some.injEq, reduceCtorEq, or_false, eq_comm]

/-! ## The constructor -/

/-- The `next` field at an address of a heap. -/
def nextOn (h : Heap BufNode) (a : BufAddr) : Option (Option BufAddr) := (h.read a).map BufNode.next

/-- What the loop of the constructor leaves: the list goes on through the new buffers. -/
structure Appended (c : MemCap) (junk : ℤ → UInt8) (n : ℕ) (first prev : ℕ) (l : List ℕ)
    (h h' : Heap BufNode) : Prop where
  links : Links (nextOn h') (some first) (l ++ [prev] ++ List.range' h.next n)
  count : h'.next = h.next + n
  bufPrev : (h'.read prev).map BufNode.buf = (h.read prev).map BufNode.buf
  old : ∀ x, x < h.next → x ≠ prev → h'.read x = h.read x
  made : ∀ x, h.next ≤ x → x < h.next + n → ∃ q, h'.read x = some ⟨.new c.size junk, q⟩

theorem appendBufs_spec (c : MemCap) (junk : ℤ → UInt8) (n : ℕ) : ∀ {first prev : ℕ}
    {l : List ℕ} {h : Heap BufNode}, Links (nextOn h) (some first) (l ++ [prev]) →
      Appended c junk n first prev l h (appendBufs c junk n prev h) := by
  induction n with
  | zero =>
    intro first prev l h hl
    refine ⟨by simpa [appendBufs] using hl, rfl, rfl, fun x _ _ => rfl, fun x h1 h2 => by omega⟩
  | succ n ih =>
    intro first prev l h hl
    obtain ⟨q, hq⟩ := hl.lives (List.mem_append_right l (List.mem_singleton.2 rfl))
    obtain ⟨b, hb, -⟩ := Option.map_eq_some_iff.1 hq
    have hlt : prev < h.next := Heap.lt_next hb
    -- one round: a new buffer, linked behind `prev`
    set h1 := (h.alloc ⟨.new c.size junk, none⟩).modify prev fun b => { b with next := some h.next }
      with hh1
    have hprev : h1.read prev = some { b with next := some h.next } := by
      rw [hh1, Heap.read_modify_self, Heap.read_alloc_of_read hb]
      rfl
    have hnew : h1.read h.next = some ⟨.new c.size junk, none⟩ := by
      rw [hh1, Heap.read_modify_ne (by omega), Heap.read_alloc_next]
    have hold : ∀ x, x ≠ prev → x ≠ h.next → h1.read x = h.read x := by
      intro x hx hxn
      rw [hh1, Heap.read_modify_ne hx, Heap.read_alloc_ne hxn]
    have hnd := hl.nodup
    have hl1 : Links (nextOn h1) (some first) ((l ++ [prev]) ++ [h.next]) := by
      rw [List.append_assoc]
      refine hl.extend ?_ ?_ ?_
      · rw [nextOn, hprev]
        rfl
      · rw [nextOn, hnew]
        rfl
      · intro x hx
        have hxp : x ≠ prev := by
          rintro rfl
          rw [List.nodup_append] at hnd
          exact hnd.2.2 x hx x (List.mem_singleton.2 rfl) rfl
        have hxn : x ≠ h.next := by
          rintro rfl
          obtain ⟨q', hq'⟩ := hl.lives (List.mem_append_left [prev] hx)
          rw [nextOn, Heap.read_next] at hq'
          cases hq'
        rw [nextOn, nextOn, hold x hxp hxn]
    have hrest := ih hl1
    have hnext1 : h1.next = h.next + 1 := rfl
    refine { links := ?links, count := ?count, bufPrev := ?bufPrev, old := ?old, made := ?made }
    case links =>
      have hlinks := hrest.links
      rw [hnext1] at hlinks
      rw [List.range'_succ]
      simpa [appendBufs, List.append_assoc] using hlinks
    case count =>
      have hnx := hrest.count
      rw [hnext1] at hnx
      show (appendBufs c junk n h.next h1).next = _
      omega
    case bufPrev =>
      show ((appendBufs c junk n h.next h1).read prev).map _ = _
      rw [hrest.old prev (by omega) (by omega), hprev, hb]
      rfl
    case old =>
      intro x hx hxp
      show (appendBufs c junk n h.next h1).read x = _
      rw [hrest.old x (by omega) (by omega), hold x hxp (by omega)]
    case made =>
      intro x h1x h2x
      show ∃ q, (appendBufs c junk n h.next h1).read x = _
      by_cases hxn : x = h.next
      · subst hxn
        have hbuf := hrest.bufPrev
        rw [hnew] at hbuf
        obtain ⟨b', hb', hbb⟩ := Option.map_eq_some_iff.1 hbuf
        obtain ⟨buf, q'⟩ := b'
        cases hbb
        exact ⟨q', hb'⟩
      · exact hrest.made x (by omega) (by omega)

/-- The capacities add up class by class. -/
theorem totalCapacity_append {c : MemCap} {k : ℕ} (hcount : p'.heap.next = p.heap.next + k)
    (hold : ∀ x, x < p.heap.next → p'.capacityAt x = p.capacityAt x)
    (hmade : ∀ x, p.heap.next ≤ x → x < p.heap.next + k → p'.capacityAt x = c.size) :
    p'.totalCapacity = p.totalCapacity + c.size * k := by
  have hnew : (List.range' p.heap.next k).map p'.capacityAt = List.replicate k c.size := by
    rw [List.eq_replicate_iff]
    refine ⟨by simp, fun y hy => ?_⟩
    obtain ⟨x, hx, rfl⟩ := List.mem_map.1 hy
    obtain ⟨h1, h2⟩ := List.mem_range'_1.1 hx
    exact hmade x h1 h2
  have hsplit : List.range (p.heap.next + k) = List.range p.heap.next ++ List.range' p.heap.next k := by
    rw [List.range_add, List.range'_eq_map_range]
  rw [totalCapacity, hcount, hsplit, List.map_append, List.sum_append, hnew, List.sum_replicate,
    List.map_congr_left fun x hx => hold x (List.mem_range.1 hx), totalCapacity, nsmul_eq_mul, mul_comm]

/-- One class of the constructor: its new list holds all that was made. -/
theorem addClass_spec (junk : ℤ → UInt8) (h : PoolOK p free) (hout : ∀ x, ¬Out p free x) {c : MemCap} {n : ℕ}
    (hempty : free c = []) (hlim : (p.addClass c n junk).totalMem < extraMemLimit) :
    PoolOK (p.addClass c n junk) (Function.update free c (List.range' p.heap.next (n + 1))) ∧
      ∀ x, ¬Out (p.addClass c n junk) (Function.update free c (List.range' p.heap.next (n + 1))) x := by
  have hfirst : (p.heap.alloc ⟨.new c.size junk, none⟩).read p.heap.next =
      some ⟨.new c.size junk, none⟩ := Heap.read_alloc_next
  have hlinks : Links (nextOn (p.heap.alloc ⟨.new c.size junk, none⟩)) (some p.heap.next)
      ([] ++ [p.heap.next]) := ⟨rfl, none, by rw [nextOn, hfirst]; rfl, rfl⟩
  have happ := appendBufs_spec c junk n hlinks
  have hcount : (p.addClass c n junk).heap.next = p.heap.next + (n + 1) := by
    refine happ.count.trans ?_
    show p.heap.next + 1 + n = _
    omega
  have hold : ∀ x, x < p.heap.next → (p.addClass c n junk).heap.read x = p.heap.read x := by
    intro x hx
    refine (happ.old x (Nat.lt_succ_of_lt hx) hx.ne).trans ?_
    exact Heap.read_alloc_ne hx.ne
  have hmade : ∀ x, p.heap.next ≤ x → x < p.heap.next + (n + 1) →
      ∃ q, (p.addClass c n junk).heap.read x = some ⟨.new c.size junk, q⟩ := by
    intro x h1 h2
    by_cases hx : x = p.heap.next
    · have hbuf := happ.bufPrev
      rw [hfirst] at hbuf
      obtain ⟨⟨b, q⟩, hb, hbb⟩ := Option.map_eq_some_iff.1 hbuf
      cases hbb
      exact ⟨q, hx ▸ hb⟩
    · refine happ.made x ?_ ?_
      · show p.heap.next + 1 ≤ x
        omega
      · show x < p.heap.next + 1 + n
        omega
  have hlives : ∀ x, x < p.heap.next + (n + 1) → ∃ b, (p.addClass c n junk).heap.read x = some b := by
    intro x hx
    by_cases hxn : x < p.heap.next
    · rw [hold x hxn]
      exact h.lives x hxn
    · obtain ⟨q, hq⟩ := hmade x (by omega) hx
      exact ⟨_, hq⟩
  have hlt : ∀ x b, (p.addClass c n junk).heap.read x = some b → x < p.heap.next + (n + 1) := by
    intro x b hb
    rw [← hcount]
    exact Heap.lt_next hb
  have hfree : ∀ d, ∀ x ∈ free d, x < p.heap.next := by
    intro d x hx
    obtain ⟨b, hb, -⟩ := h.waiting d x hx
    exact Heap.lt_next hb
  refine ⟨{
    links := ?links, waiting := ?waiting, classed := ?classed, lives := ?lives, total := ?total
    limit := hlim }, ?out⟩
  case links =>
    intro d
    by_cases hd : d = c
    · subst hd
      rw [Function.update_self]
      show Links _ (Function.update p.pool d _ d) _
      rw [Function.update_self, List.range'_succ]
      exact happ.links
    · rw [Function.update_of_ne hd]
      show Links _ (Function.update p.pool c _ d) _
      rw [Function.update_of_ne hd]
      refine (h.links d).congr fun x hx => ?_
      rw [nextAt, nextAt, hold x (hfree d x hx)]
  case waiting =>
    intro d x hx
    by_cases hd : d = c
    · subst hd
      rw [Function.update_self] at hx
      obtain ⟨h1, h2⟩ := List.mem_range'_1.1 hx
      obtain ⟨q, hq⟩ := hmade x h1 h2
      exact ⟨_, hq, rfl, rfl, rfl⟩
    · rw [Function.update_of_ne hd] at hx
      obtain ⟨b, hb, hrest⟩ := h.waiting d x hx
      exact ⟨b, (hold x (hfree d x hx)).trans hb, hrest⟩
  case classed =>
    intro x b hb
    by_cases hx : x < p.heap.next
    · rw [hold x hx] at hb
      exact h.classed x b hb
    · obtain ⟨q, hq⟩ := hmade x (by omega) (hlt x b hb)
      rw [hq] at hb
      cases hb
      exact ⟨c, rfl⟩
  case lives =>
    intro x hx
    rw [hcount] at hx
    exact hlives x hx
  case total =>
    have hsum : (p.addClass c n junk).totalCapacity = p.totalCapacity + c.size * (n + 1 : ℕ) := by
      refine totalCapacity_append hcount (fun x hx => ?_) fun x h1 h2 => ?_
      · rw [capacityAt, capacityAt, hold x hx]
      · obtain ⟨q, hq⟩ := hmade x h1 h2
        rw [capacityAt_eq hq]
        rfl
    have hc := c.size_mod
    rw [hsum, ← h.total]
    show (p.totalMem + c.size / 1024 * (n + 1)) * 1024 = p.totalMem * 1024 + c.size * (n + 1 : ℕ)
    rw [add_mul, mul_right_comm, ← hc, Nat.cast_succ]
  case out =>
    rintro x ⟨⟨b, hb⟩, hnot⟩
    have hxlt := hlt x b hb
    by_cases hx : x < p.heap.next
    · rw [hold x hx] at hb
      refine hout x ⟨⟨b, hb⟩, fun d hd => ?_⟩
      by_cases hdc : d = c
      · rw [hdc, hempty] at hd
        cases hd
      · refine hnot d ?_
        rwa [Function.update_of_ne hdc]
    · refine hnot c ?_
      rw [Function.update_self]
      exact List.mem_range'_1.2 ⟨Nat.not_lt.1 hx, hxlt⟩

@[simp] theorem addClass_totalMem (c : MemCap) (n : ℕ) :
    (p.addClass c n junk).totalMem = p.totalMem + c.size / 1024 * (n + 1) := rfl

theorem bare_spec : PoolOK bare (fun _ => []) ∧ ∀ x, ¬Out bare (fun _ => []) x := by
  refine ⟨⟨fun c => rfl, ?_, ?_, ?_, rfl, by decide⟩, ?_⟩
  · intro c a ha
    cases ha
  · intro a b hb
    cases hb
  · intro a ha
    cases ha
  · rintro x ⟨⟨b, hb⟩, -⟩
    cases hb

/-- **The constructor** leaves every buffer in the list of its class. -/
theorem new_spec (junk : ℤ → UInt8) : ∃ free, PoolOK (new junk) free ∧ ∀ x, ¬Out (new junk) free x := by
  have h0 := bare_spec
  have h1 := addClass_spec (c := .m4K) (n := 4999) junk h0.1 h0.2 rfl (by simp [bare, MemCap.size, extraMemLimit])
  have h2 := addClass_spec (c := .m16K) (n := 999) junk h1.1 h1.2 rfl (by simp [bare, MemCap.size, extraMemLimit])
  have h3 := addClass_spec (c := .m64K) (n := 499) junk h2.1 h2.2 rfl (by simp [bare, MemCap.size, extraMemLimit])
  have h4 := addClass_spec (c := .m256K) (n := 199) junk h3.1 h3.2 rfl (by simp [bare, MemCap.size, extraMemLimit])
  have h5 := addClass_spec (c := .m1M) (n := 49) junk h4.1 h4.2 rfl (by simp [bare, MemCap.size, extraMemLimit])
  have h6 := addClass_spec (c := .m4M) (n := 19) junk h5.1 h5.2 rfl (by simp [bare, MemCap.size, extraMemLimit])
  have h7 := addClass_spec (c := .m8M) (n := 9) junk h6.1 h6.2 rfl (by simp [bare, MemCap.size, extraMemLimit])
  exact ⟨_, h7⟩

/-! ## The pointers of all objects -/

section Placed

variable {κ : Type*} {held : κ → Option BufAddr} {k l : κ}

/-- **The buffers that are out are behind these pointers**, each behind one. -/
structure Placed (p : PoolHeap) (free : MemCap → List BufAddr) (held : κ → Option BufAddr) : Prop where
  ok : PoolOK p free
  out : ∀ x, Out p free x ↔ ∃ k, held k = some x
  once : ∀ k l x, held k = some x → held l = some x → k = l

theorem Placed.points (h : Placed p free held) (k : κ) : Held p free (held k) :=
  fun x hx => (h.out x).2 ⟨k, hx⟩

variable [DecidableEq κ]

/-- A swap at one pointer. -/
theorem Placed.swap (h : Placed p free held) (hs : Swaps p free (held k) p' free' rb') :
    Placed p' free' (Function.update held k rb') := by
  have hself : Function.update held k rb' k = rb' := Function.update_self k rb' held
  have hne : ∀ {l}, l ≠ k → Function.update held k rb' l = held l :=
    fun hl => Function.update_of_ne hl rb' held
  -- what another pointer points to is neither given back nor taken
  have hother : ∀ l x, l ≠ k → held l = some x → rb' ≠ some x := by
    intro l x hl hx hrb
    rcases hs.fresh x hrb with hk | hnot
    · exact hl (h.once l k x hx hk)
    · exact hnot ((h.out x).2 ⟨l, hx⟩)
  refine ⟨hs.ok, fun x => ?_, fun l m x hl hm => ?_⟩
  · rw [hs.out x, h.out x]
    constructor
    · rintro (⟨⟨l, hl⟩, hk⟩ | hrb)
      · have hlk : l ≠ k := fun hlk => hk (hlk ▸ hl)
        exact ⟨l, (hne hlk).trans hl⟩
      · exact ⟨k, hself.trans hrb⟩
    · rintro ⟨l, hl⟩
      by_cases hlk : l = k
      · subst hlk
        exact Or.inr (hself.symm.trans hl)
      · rw [hne hlk] at hl
        exact Or.inl ⟨⟨l, hl⟩, fun hk => hlk (h.once l k x hl hk)⟩
  · by_cases hlk : l = k <;> by_cases hmk : m = k
    · rw [hlk, hmk]
    · subst hlk
      rw [hself] at hl
      rw [hne hmk] at hm
      exact absurd hl (hother m x hmk hm)
    · subst hmk
      rw [hself] at hm
      rw [hne hlk] at hl
      exact absurd hm (hother l x hlk hl)
    · rw [hne hlk] at hl
      rw [hne hmk] at hm
      exact h.once l m x hl hm

/-- A pointer is moved into one that is null. -/
theorem Placed.move (h : Placed p free held) (hkl : k ≠ l) (hk : held k = none) :
    Placed p free (Function.update (Function.update held k (held l)) l none) := by
  have hto : Function.update (Function.update held k (held l)) l none k = held l := by
    rw [Function.update_of_ne hkl, Function.update_self]
  have hfrom : Function.update (Function.update held k (held l)) l none l = none := Function.update_self ..
  have hne : ∀ {m}, m ≠ k → m ≠ l →
      Function.update (Function.update held k (held l)) l none m = held m := by
    intro m hmk hml
    rw [Function.update_of_ne hml, Function.update_of_ne hmk]
  -- where a pointer of the new state was before
  have hback : ∀ m x, Function.update (Function.update held k (held l)) l none m = some x →
      held (if m = k then l else m) = some x := by
    intro m x hm
    by_cases hmk : m = k
    · subst hmk
      rw [if_pos rfl, ← hto, hm]
    · rw [if_neg hmk]
      by_cases hml : m = l
      · subst hml
        rw [hfrom] at hm
        cases hm
      · rwa [hne hmk hml] at hm
  refine ⟨h.ok, fun x => ?_, fun m n x hm hn => ?_⟩
  · rw [h.out x]
    constructor
    · rintro ⟨m, hm⟩
      by_cases hml : m = l
      · subst hml
        exact ⟨k, hto.trans hm⟩
      · refine ⟨m, (hne ?_ hml).trans hm⟩
        rintro rfl
        rw [hk] at hm
        cases hm
    · rintro ⟨m, hm⟩
      exact ⟨_, hback m x hm⟩
  · have heq := h.once _ _ x (hback m x hm) (hback n x hn)
    have hlast : ∀ {m}, Function.update (Function.update held k (held l)) l none m = some x → m ≠ l := by
      rintro m hm rfl
      rw [hfrom] at hm
      cases hm
    by_cases hmk : m = k <;> by_cases hnk : n = k
    · rw [hmk, hnk]
    · rw [if_pos hmk, if_neg hnk] at heq
      exact absurd heq.symm (hlast hn)
    · rw [if_neg hmk, if_pos hnk] at heq
      exact absurd heq (hlast hm)
    · rwa [if_neg hmk, if_neg hnk] at heq

end Placed

end PoolHeap

namespace PoolUsers

open PoolHeap

variable {ι : Type*} {s s' : PoolUsers ι} {free : MemCap → List BufAddr}

/-- The pointers of the objects: `_buf`, and `new_buf` while a call is interrupted. -/
def held (s : PoolUsers ι) : ι × Bool → Option BufAddr
  | (i, false) => s.buf i
  | (i, true) => (s.busy i).map Prod.fst

/-- **Every buffer is in its place.** -/
structure InPlace (s : PoolUsers ι) (free : MemCap → List BufAddr) : Prop where
  /-- the free lists end, so none is a cycle -/
  links : ∀ c, Links s.pool.nextAt (s.pool.pool c) (free c)
  /-- a buffer that waits is empty, and in the list of its capacity -/
  waiting : ∀ c, ∀ a ∈ free c, ∃ b, s.pool.heap.read a = some b ∧ b.buf.capacity = c.size ∧
    b.buf.length = 0 ∧ b.buf.head = 0
  /-- every buffer ever made lives, and is once in one list or behind one pointer -/
  place : ∀ a, a < s.pool.heap.next → (∃ b, s.pool.heap.read a = some b) ∧
    ((∃ c, (free c).count a = 1 ∧ (∀ d, d ≠ c → a ∉ free d) ∧ ∀ k, s.held k ≠ some a) ∨
      ((∀ c, a ∉ free c) ∧ ∃! k, s.held k = some a))
  /-- a pointer points to a buffer that lives -/
  lives : ∀ k a, s.held k = some a → ∃ b, s.pool.heap.read a = some b
  /-- a request for at most 8 MB gets an empty buffer of the smallest class that holds it -/
  alloc : ∀ n junk, n ≤ MemCap.m8M.size → s.pool.allocBuf n junk = .error .memoryLimit ∨
    ∃ a p b, s.pool.allocBuf n junk = .ok (some a, p) ∧ p.heap.read a = some b ∧
      (∃ c : MemCap, b.buf.capacity = c.size) ∧ n ≤ b.buf.capacity ∧
      (∀ d : MemCap, n ≤ d.size → b.buf.capacity ≤ d.size) ∧
      b.buf.length = 0 ∧ b.buf.head = 0 ∧ ∀ k, s.held k ≠ some a
  /-- a buffer behind a pointer can be given back -/
  back : ∀ k a, s.held k = some a → ∃ p, s.pool.revert a = .ok p
  /-- `_total_mem` counts all capacities, and stays below the limit -/
  total : s.pool.totalMem * 1024 = s.pool.totalCapacity
  limit : s.pool.totalMem < extraMemLimit

theorem InPlace.of_placed (h : Placed s.pool free s.held) : s.InPlace free := by
  refine ⟨h.ok.links, h.ok.waiting, fun a ha => ⟨h.ok.lives a ha, ?_⟩, fun k a hk => ?_,
    fun n junk hn => ?_, fun k a hk => ?_, h.ok.total, h.ok.limit⟩
  · by_cases hout : Out s.pool free a
    · obtain ⟨k, hk⟩ := (h.out a).1 hout
      exact Or.inr ⟨hout.2, k, hk, fun l hl => h.once l k a hl hk⟩
    · have hlives := h.ok.lives a ha
      have hwaits : ∃ c, a ∈ free c := by
        by_contra hno
        exact hout ⟨hlives, not_exists.1 hno⟩
      obtain ⟨c, hc⟩ := hwaits
      refine Or.inl ⟨c, List.count_eq_one_of_mem (h.ok.links c).nodup hc, fun d hd had => ?_, fun k hk => ?_⟩
      · exact hd (h.ok.disjoint had hc)
      · exact hout ((h.out a).2 ⟨k, hk⟩)
  · exact (h.points k a hk).1
  · rcases allocBuf_spec h.ok n junk with
      he | ⟨hbig, -⟩ | ⟨a, p, free', c, b, he, hc, -, hnew, -, hb, hcap, hlen, hhead⟩
    · exact Or.inl he
    · exact absurd hn (Int.not_le.2 hbig)
    · refine Or.inr ⟨a, p, b, he, hb, ⟨c, hcap⟩, ?_, fun d hd => ?_, hlen, hhead, fun k hk => ?_⟩
      · rw [hcap]
        exact BufPool.le_size_of_index hc
      · rw [hcap]
        exact BufPool.size_le_of_index hc hd
      · exact hnew ((h.out a).2 ⟨k, hk⟩)
  · obtain ⟨p, -, hp, -⟩ := revert_spec h.ok (h.points k a hk)
    exact ⟨p, hp⟩

variable [DecidableEq ι]

/-- **What one turn can do.** -/
inductive Stepped (s : PoolUsers ι) : ι × Turn → PoolUsers ι → Prop
  /-- the object has another call to go on with -/
  | busy {i c x} : s.busy i = some x → Stepped s (i, .call c) s
  | ended {i c rb p} : s.busy i = none → c.start (s.buf i) s.pool = .ok (.ended rb, p) →
      Stepped s (i, .call c) { s with pool := p, buf := Function.update s.buf i rb }
  /-- the call has its larger buffer, and is interrupted -/
  | larger {i c new_buf p} : s.busy i = none → c.start (s.buf i) s.pool = .ok (.larger new_buf, p) →
      Stepped s (i, .call c) { s with pool := p, busy := Function.update s.busy i (some (new_buf, c)) }
  | idle {i} : s.busy i = none → Stepped s (i, .resume) s
  | finished {i c new_buf a p} : s.busy i = some (new_buf, c) → s.buf i = some a →
      c.finish a new_buf s.pool = .ok p →
      Stepped s (i, .resume) ⟨p, Function.update s.buf i (some new_buf), Function.update s.busy i none⟩

theorem stepped {e : ι × Turn} (hs : s.step e = .ok s') : Stepped s e s' := by
  obtain ⟨i, t⟩ := e
  unfold step at hs
  cases t with
  | call c =>
    dsimp only at hs
    split at hs
    · rename_i x hbusy
      cases hs
      exact .busy hbusy
    rename_i hidle
    split at hs
    · cases hs
    · rename_i rb p hstart
      cases hs
      exact .ended hidle hstart
    · rename_i new_buf p hstart
      cases hs
      exact .larger hidle hstart
  | resume =>
    dsimp only at hs
    split at hs
    · rename_i hidle
      cases hs
      exact .idle hidle
    rename_i new_buf c hbusy
    split at hs
    · cases hs
    rename_i a ha
    split at hs
    · cases hs
    rename_i p hfinish
    cases hs
    exact .finished hbusy ha hfinish

omit [DecidableEq ι] in
/-- An interrupted call points to its `new_buf`. -/
theorem held_of_busy {i : ι} {new_buf : BufAddr} {c : BufCall} (hbusy : s.busy i = some (new_buf, c)) :
    s.held (i, true) = some new_buf := by
  show (s.busy i).map Prod.fst = some new_buf
  rw [hbusy]
  rfl

omit [DecidableEq ι] in
/-- `new_buf` is not the buffer that the object has. -/
theorem new_buf_ne (h : Placed s.pool free s.held) {i : ι} {new_buf a : BufAddr} {c : BufCall}
    (hbusy : s.busy i = some (new_buf, c)) (ha : s.buf i = some a) : new_buf ≠ a := by
  rintro rfl
  have hold : s.held (i, false) = some new_buf := ha
  cases h.once _ _ new_buf (held_of_busy hbusy) hold

theorem held_buf (s : PoolUsers ι) (p : PoolHeap) (i : ι) (rb : Option BufAddr) :
    held { s with pool := p, buf := Function.update s.buf i rb } =
      Function.update s.held (i, false) rb := by
  funext ⟨j, b⟩
  cases b with
  | false =>
    by_cases hj : j = i
    · subst hj
      simp [held]
    · simp [held, hj]
  | true => simp [held]

theorem held_busy (s : PoolUsers ι) (p : PoolHeap) (i : ι) (c : Option (BufAddr × BufCall)) :
    held { s with pool := p, busy := Function.update s.busy i c } =
      Function.update s.held (i, true) (c.map Prod.fst) := by
  funext ⟨j, b⟩
  cases b with
  | false => simp [held]
  | true =>
    by_cases hj : j = i
    · subst hj
      simp [held]
    · simp [held, hj]

/-- An object's turn keeps every buffer in its place. -/
theorem step_placed (h : Placed s.pool free s.held) {e : ι × Turn} (hs : s.step e = .ok s') :
    ∃ free', Placed s'.pool free' s'.held := by
  cases stepped hs with
  | busy _ => exact ⟨free, h⟩
  | @ended i c rb p hidle hstart =>
    rcases start_spec h.ok (h.points (i, false)) hstart with
      ⟨rb', free', heq, hswap⟩ | ⟨a, new_buf, free', -, heq, -⟩
    · cases heq
      refine ⟨free', ?_⟩
      rw [held_buf]
      exact h.swap hswap
    · cases heq
  | @larger i c new_buf p hidle hstart =>
    rcases start_spec h.ok (h.points (i, false)) hstart with
      ⟨rb', free', heq, -⟩ | ⟨a, b, free', -, heq, hswap⟩
    · cases heq
    · cases heq
      refine ⟨free', ?_⟩
      rw [held_busy]
      have hnone : s.held (i, true) = none := by
        show (s.busy i).map Prod.fst = none
        rw [hidle]
        rfl
      exact h.swap (hnone ▸ hswap)
  | idle _ => exact ⟨free, h⟩
  | @finished i c new_buf a p hbusy ha hfinish =>
    have hnew := held_of_busy hbusy
    have hold : s.held (i, false) = some a := ha
    obtain ⟨free', hswap⟩ := finish_spec h.ok (h.points _ a hold) (h.points _ new_buf hnew)
      (new_buf_ne h hbusy ha) hfinish
    -- the old buffer goes back, and `new_buf` becomes `_buf`
    have hback := h.swap (k := (i, false)) (hold.symm ▸ hswap)
    have hmove := hback.move (k := (i, false)) (l := (i, true)) (by simp) (Function.update_self ..)
    refine ⟨free', ?_⟩
    rw [Function.update_of_ne (by simp), hnew, Function.update_idem, ← held_buf s p,
      show (none : Option BufAddr) = (none : Option (BufAddr × BufCall)).map Prod.fst from rfl,
      ← held_busy _ p] at hmove
    exact hmove

omit [DecidableEq ι] in
/-- Nothing is out at the start. -/
theorem placed_new (junk : ℤ → UInt8) :
    ∃ free, Placed (new (ι := ι) junk).pool free (new (ι := ι) junk).held := by
  obtain ⟨free, hok, hout⟩ := new_spec junk
  have hnull : ∀ k, (new (ι := ι) junk).held k = none := by
    rintro ⟨i, b⟩
    cases b <;> rfl
  refine ⟨free, hok, fun x => ?_, fun k l x hk => ?_⟩
  · simp only [hnull, reduceCtorEq, exists_false, iff_false]
    exact hout x
  · rw [hnull] at hk
    cases hk

/-- **In every run, whichever way the calls of the objects interleave, every buffer is in
its place.** -/
theorem buffers_in_place (junk : ℤ → UInt8) (turns : List (ι × Turn)) :
    Runs.Throughout step (fun _ s => ∃ free, s.InPlace free) (new junk) turns := by
  intro pre _ s hs
  obtain ⟨free, h⟩ := Runs.run_inv (I := fun s => ∃ free, Placed s.pool free s.held)
    (fun t e u ⟨free, ht⟩ hu => step_placed ht hu) (placed_new junk) hs
  exact ⟨free, InPlace.of_placed h⟩

end PoolUsers

end LbRpc
