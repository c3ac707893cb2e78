import LbRpc.Reactor.IOBuf

/-!
# The buffer pool

`BufPool` (`reactor/include/buf_pool.h`, `reactor/src/buf_pool.cpp`). A buffer is in a
free list or with its holder, and moves between them as a value. Free buffers are empty
and have the capacity of their list.
-/

namespace LbRpc

/-- `enum MEM_CAP`. -/
inductive MemCap
  | m4K
  | m16K
  | m64K
  | m256K
  | m1M
  | m4M
  | m8M
  deriving DecidableEq, Repr

/-- The bytes of a capacity class. -/
def MemCap.size : MemCap → ℤ
  | .m4K => 4096
  | .m16K => 16384
  | .m64K => 65536
  | .m256K => 262144
  | .m1M => 1048576
  | .m4M => 4194304
  | .m8M => 8388608

/-- `EXTRA_MEM_LIMIT`, in KB. -/
def extraMemLimit : ℤ := 5 * 1024 * 1024

/-- A buffer that waits in the list of its class. -/
structure FreeBuf (c : MemCap) where
  buf : IOBuf
  capacity : buf.capacity = c.size
  length : buf.length = 0
  head : buf.head = 0

/-- The free lists, front first, and the memory made so far in KB. -/
structure BufPool where
  pool : (c : MemCap) → List (FreeBuf c)
  totalMem : ℤ

namespace BufPool

/-- The smallest class that holds `n` bytes. -/
def index (n : ℤ) : Option MemCap :=
  if n ≤ MemCap.m4K.size then some .m4K
  else if n ≤ MemCap.m16K.size then some .m16K
  else if n ≤ MemCap.m64K.size then some .m64K
  else if n ≤ MemCap.m256K.size then some .m256K
  else if n ≤ MemCap.m1M.size then some .m1M
  else if n ≤ MemCap.m4M.size then some .m4M
  else if n ≤ MemCap.m8M.size then some .m8M
  else none

/-- A free list replaced. -/
def setPool (p : BufPool) (c : MemCap) (l : List (FreeBuf c)) : BufPool :=
  { p with pool := fun d => if h : c = d then h ▸ l else p.pool d }

/-- `BufPool::alloc_buf`; the null pointer is `none`. -/
def allocBuf (n : ℤ) (junk : ℤ → UInt8) (p : BufPool) : Except Crash (Option IOBuf × BufPool) :=
  match index n with
  | none => .ok (none, p)
  | some c =>
    match p.pool c with
    | [] =>
      if extraMemLimit ≤ p.totalMem + c.size / 1024 then .error .memoryLimit
      else .ok (some (IOBuf.new c.size junk), { p with totalMem := p.totalMem + c.size / 1024 })
    | b :: l => .ok (some b.buf, p.setPool c l)

/-- `BufPool::revert`: the assertion wants the capacity to be that of a class. -/
def revert (b : IOBuf) (p : BufPool) : Except Crash BufPool :=
  match h : [MemCap.m4K, .m16K, .m64K, .m256K, .m1M, .m4M, .m8M].find? (·.size = b.capacity) with
  | none => .error .assertFail
  | some c =>
    have hcap : b.capacity = c.size := by
      have := List.find?_some h
      exact (of_decide_eq_true this).symm
    .ok (p.setPool c (⟨b.clear, hcap, rfl, rfl⟩ :: p.pool c))

variable {p : BufPool}

/-- Every class holds at most 8 MB. -/
theorem size_le (c : MemCap) : c.size ≤ MemCap.m8M.size := by
  rcases c with _ | _ | _ | _ | _ | _ | _ <;> decide

theorem index_cases (n : ℤ) :
    (MemCap.m8M.size < n ∧ index n = none) ∨ ∃ c, index n = some c ∧ n ≤ c.size := by
  by_cases h : n ≤ MemCap.m8M.size
  · right
    unfold index
    by_cases h1 : n ≤ MemCap.m4K.size
    · exact ⟨_, if_pos h1, h1⟩
    by_cases h2 : n ≤ MemCap.m16K.size
    · exact ⟨_, by rw [if_neg h1, if_pos h2], h2⟩
    by_cases h3 : n ≤ MemCap.m64K.size
    · exact ⟨_, by rw [if_neg h1, if_neg h2, if_pos h3], h3⟩
    by_cases h4 : n ≤ MemCap.m256K.size
    · exact ⟨_, by rw [if_neg h1, if_neg h2, if_neg h3, if_pos h4], h4⟩
    by_cases h5 : n ≤ MemCap.m1M.size
    · exact ⟨_, by rw [if_neg h1, if_neg h2, if_neg h3, if_neg h4, if_pos h5], h5⟩
    by_cases h6 : n ≤ MemCap.m4M.size
    · exact ⟨_, by rw [if_neg h1, if_neg h2, if_neg h3, if_neg h4, if_neg h5, if_pos h6], h6⟩
    · exact ⟨_, by rw [if_neg h1, if_neg h2, if_neg h3, if_neg h4, if_neg h5, if_neg h6, if_pos h], h⟩
  · left
    have hbig : ∀ c : MemCap, ¬ n ≤ c.size := fun c hc => h (Int.le_trans hc (size_le c))
    refine ⟨by omega, ?_⟩
    unfold index
    simp only [hbig, if_false]

theorem le_size_of_index {n : ℤ} {c : MemCap} (h : index n = some c) : n ≤ c.size := by
  rcases index_cases n with ⟨-, hnone⟩ | ⟨d, hd, hn⟩
  · rw [hnone] at h
    cases h
  · rw [h] at hd
    cases hd
    exact hn

/-- The class of a request is the smallest one that holds it. -/
theorem size_le_of_index {n : ℤ} {c d : MemCap} (h : index n = some c) (hd : n ≤ d.size) :
    c.size ≤ d.size := by
  revert h
  fun_cases index n <;> rintro ⟨⟩ <;> cases d <;> simp only [MemCap.size] at * <;> omega

/-- The capacity of a buffer is that of a class. -/
def Classed (b : IOBuf) : Prop := ∃ c : MemCap, b.capacity = c.size

/-- A pool with no buffers yet. -/
def bare : BufPool := ⟨fun _ => [], 0⟩

/-- The pool is so far below its memory limit that no request can exit. -/
def HasRoom (p : BufPool) : Prop := p.totalMem + 8192 < extraMemLimit

theorem bare_hasRoom : bare.HasRoom := by
  unfold HasRoom bare
  decide

/-- A request that is too large for every class. -/
theorem allocBuf_none {n : ℤ} (h : MemCap.m8M.size < n) (p : BufPool) (junk : ℤ → UInt8) :
    p.allocBuf n junk = .ok (none, p) := by
  unfold allocBuf
  rcases index_cases n with ⟨-, hnone⟩ | ⟨c, -, hn⟩
  · rw [hnone]
  · have := size_le c
    omega

/-- **A request** ends at the memory limit, is too large for every class, or brings an
empty buffer with room for it. -/
theorem allocBuf_cases (n : ℤ) (p : BufPool) (junk : ℤ → UInt8) :
    (p.allocBuf n junk = .error .memoryLimit ∧ ¬ p.HasRoom) ∨
      (MemCap.m8M.size < n ∧ p.allocBuf n junk = .ok (none, p)) ∨
      ∃ b p', p.allocBuf n junk = .ok (some b, p') ∧ b.Holds [] ∧ b.head = 0 ∧ n ≤ b.capacity ∧
        Classed b := by
  unfold allocBuf
  rcases index_cases n with ⟨hbig, hnone⟩ | ⟨c, hc, hn⟩
  · rw [hnone]
    exact Or.inr (Or.inl ⟨hbig, rfl⟩)
  have hpos : 0 ≤ c.size := by rcases c with _ | _ | _ | _ | _ | _ | _ <;> decide
  rw [hc]
  dsimp only
  rcases hp : p.pool c with _ | ⟨b, l⟩
  · dsimp only
    have hc8 : c.size ≤ 8388608 := size_le c
    split
    · refine Or.inl ⟨rfl, ?_⟩
      unfold HasRoom
      omega
    · exact Or.inr (Or.inr ⟨_, _, rfl, IOBuf.holds_new hpos junk, rfl, hn, c, rfl⟩)
  · have hcap := b.capacity
    refine Or.inr (Or.inr ⟨b.buf, _, rfl, ⟨b.length, Int.le_of_eq b.head.symm, ?_, rfl⟩, b.head,
      by omega, c, hcap⟩)
    rw [b.head, b.length]
    omega

/-- A buffer of the pool can go back. -/
theorem revert_ok {b : IOBuf} (h : Classed b) : ∃ p', p.revert b = .ok p' := by
  obtain ⟨c, hc⟩ := h
  unfold revert
  split
  · rename_i hnone
    rw [List.find?_eq_none] at hnone
    have hmem : c ∈ [MemCap.m4K, .m16K, .m64K, .m256K, .m1M, .m4M, .m8M] := by
      rcases c with _ | _ | _ | _ | _ | _ | _ <;> simp
    exact absurd hc.symm (by simpa using hnone c hmem)
  · exact ⟨_, rfl⟩

end BufPool

end LbRpc
