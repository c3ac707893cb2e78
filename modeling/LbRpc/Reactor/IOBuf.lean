import LbRpc.Base.Memory
import LbRpc.Reactor.Message

/-!
# One byte buffer

`IOBuf` (`reactor/include/io_buf.h`, `reactor/src/io_buf.cpp`). `data` is the memory
behind the pointer; only the offsets below `capacity` belong to the buffer, and an
access beside them is the crash `outOfBounds`. Lengths and offsets are integers, so a
`pop` that takes too much is a state the model can reach.

* `Holds b bs`: the unread bytes of the buffer are `bs`. Each operation has one lemma
  that says what it does to them.
-/

namespace LbRpc

structure IOBuf where
  capacity : ℤ
  length : ℤ
  head : ℤ
  data : ℤ → UInt8

namespace IOBuf

open Memory

/-- The constructor: the memory keeps what it held. -/
def new (size : ℤ) (junk : ℤ → UInt8) : IOBuf := ⟨size, 0, 0, junk⟩

/-- `IOBuf::clear`. -/
def clear (b : IOBuf) : IOBuf := { b with length := 0, head := 0 }

/-- `IOBuf::adjust`. A negative length is a huge size to `memmove`. -/
def adjust (b : IOBuf) : Except Crash IOBuf :=
  if b.head ≠ 0 then
    if b.length ≠ 0 then
      if 0 ≤ b.length ∧ 0 ≤ b.head ∧ b.head + b.length ≤ b.capacity then
        .ok { b with data := write b.data 0 (slice b.data b.head b.length.toNat), head := 0 }
      else .error .outOfBounds
    else .ok { b with head := 0 }
  else .ok b

/-- `IOBuf::copy`. -/
def copy (b other : IOBuf) : Except Crash IOBuf :=
  if 0 ≤ other.length ∧ 0 ≤ other.head ∧ other.head + other.length ≤ other.capacity ∧
      other.length ≤ b.capacity then
    .ok { b with
      data := write b.data 0 (slice other.data other.head other.length.toNat)
      head := 0
      length := other.length }
  else .error .outOfBounds

/-- `IOBuf::pop`. -/
def pop (len : ℤ) (b : IOBuf) : IOBuf := { b with length := b.length - len, head := b.head + len }

/-- `memcpy` of the first `n` bytes at `data + head`. -/
def peek (n : ℕ) (b : IOBuf) : Except Crash (List UInt8) :=
  if 0 ≤ b.head ∧ b.head + n ≤ b.capacity then .ok (slice b.data b.head n) else .error .outOfBounds

/-- Bytes put at `data + length`, and counted. -/
def append (bs : List UInt8) (b : IOBuf) : Except Crash IOBuf :=
  if 0 ≤ b.length ∧ b.length + bs.length ≤ b.capacity then
    .ok { b with data := write b.data b.length bs, length := b.length + bs.length }
  else .error .outOfBounds

/-- **The unread bytes of a buffer.** -/
structure Holds (b : IOBuf) (bs : List UInt8) : Prop where
  length : b.length = bs.length
  head : 0 ≤ b.head
  fits : b.head + b.length ≤ b.capacity
  bytes : slice b.data b.head bs.length = bs

variable {b b' : IOBuf} {bs xs ys : List UInt8}

theorem holds_new {size : ℤ} (h : 0 ≤ size) (junk : ℤ → UInt8) : Holds (new size junk) [] :=
  ⟨rfl, Int.le_refl _, by simpa [new] using h, rfl⟩

theorem Holds.pop (h : Holds b (xs ++ ys)) : Holds (b.pop xs.length) ys := by
  have hlen := h.length
  have hhead := h.head
  have hfits := h.fits
  rw [List.length_append] at hlen
  push_cast at hlen
  refine ⟨?_, ?_, ?_, (slice_drop h.bytes).2⟩
  · show b.length - xs.length = ys.length
    omega
  · show 0 ≤ b.head + xs.length
    omega
  · show b.head + xs.length + (b.length - xs.length) ≤ b.capacity
    omega

theorem Holds.peek (h : Holds b (xs ++ ys)) : b.peek xs.length = .ok xs := by
  have hlen := h.length
  have hhead := h.head
  have hfits := h.fits
  rw [List.length_append] at hlen
  push_cast at hlen
  unfold IOBuf.peek
  rw [if_pos ⟨hhead, by omega⟩, (slice_drop h.bytes).1]

/-- The first `n` unread bytes. -/
theorem Holds.peek_take (h : Holds b bs) {n : ℕ} (hn : n ≤ bs.length) : b.peek n = .ok (bs.take n) := by
  have htl : (bs.take n).length = n := by rw [List.length_take]; omega
  rw [← List.take_append_drop n bs] at h
  have := h.peek
  rw [htl] at this
  exact this

/-- The bytes that are left behind the first `n`. -/
theorem Holds.pop_drop (h : Holds b bs) {n : ℕ} (hn : n ≤ bs.length) :
    Holds (b.pop n) (bs.drop n) := by
  have htl : (bs.take n).length = n := by rw [List.length_take]; omega
  rw [← List.take_append_drop n bs] at h
  have := h.pop
  rw [htl] at this
  exact this

/-- The bytes that a callback finds behind the head. -/
theorem Holds.slice (h : Holds b (xs ++ ys)) : slice b.data b.head xs.length = xs :=
  (slice_drop h.bytes).1

/-- After `adjust` the unread bytes start the buffer. -/
theorem Holds.adjust (h : Holds b bs) :
    ∃ b', b.adjust = .ok b' ∧ Holds b' bs ∧ b'.head = 0 ∧ b'.capacity = b.capacity := by
  have hlen := h.length
  have hhead := h.head
  have hfits := h.fits
  unfold IOBuf.adjust
  by_cases h0 : b.head = 0
  · rw [if_neg (by simpa using h0)]
    exact ⟨b, rfl, h, h0, rfl⟩
  rw [if_pos h0]
  by_cases hl : b.length = 0
  · -- nothing is moved, only `head` goes back
    rw [if_neg (by simpa using hl)]
    have hnil : bs = [] := List.length_eq_zero_iff.1 (by omega)
    subst hnil
    refine ⟨_, rfl, ⟨hlen, Int.le_refl _, ?_, rfl⟩, rfl, rfl⟩
    show 0 + b.length ≤ b.capacity
    omega
  · rw [if_pos hl, if_pos ⟨by omega, hhead, hfits⟩]
    have hn : b.length.toNat = bs.length := by omega
    rw [hn, h.bytes]
    refine ⟨_, rfl, ⟨hlen, Int.le_refl _, ?_, slice_write_same _ _ _⟩, rfl, rfl⟩
    show 0 + b.length ≤ b.capacity
    omega

/-- `copy` moves the unread bytes to the start of the other buffer. -/
theorem Holds.copy (h : Holds b bs) {n : IOBuf} (hcap : (bs.length : ℤ) ≤ n.capacity) :
    ∃ n', n.copy b = .ok n' ∧ Holds n' bs ∧ n'.head = 0 ∧ n'.capacity = n.capacity := by
  have hlen := h.length
  have hhead := h.head
  have hfits := h.fits
  have hn : b.length.toNat = bs.length := by omega
  unfold IOBuf.copy
  rw [if_pos ⟨by omega, hhead, hfits, by omega⟩, hn, h.bytes]
  refine ⟨_, rfl, ⟨hlen, Int.le_refl _, ?_, slice_write_same _ _ _⟩, rfl, rfl⟩
  show 0 + b.length ≤ n.capacity
  omega

/-- Bytes that fit go behind the unread ones of an adjusted buffer. -/
theorem Holds.append (h : Holds b xs) (ys : List UInt8) (h0 : b.head = 0)
    (hcap : (xs.length : ℤ) + ys.length ≤ b.capacity) :
    ∃ b', b.append ys = .ok b' ∧ Holds b' (xs ++ ys) ∧ b'.head = 0 ∧ b'.capacity = b.capacity := by
  have hlen := h.length
  have hbytes := h.bytes
  rw [h0] at hbytes
  unfold IOBuf.append
  rw [if_pos ⟨by omega, by omega⟩]
  refine ⟨_, rfl, ⟨?_, h.head, ?_, ?_⟩, h0, rfl⟩
  · show b.length + ys.length = (xs ++ ys).length
    rw [List.length_append]; push_cast; omega
  · show b.head + (b.length + ys.length) ≤ b.capacity
    omega
  · show Memory.slice (write b.data b.length ys) b.head (xs ++ ys).length = xs ++ ys
    rw [List.length_append, slice_add, h0, hlen, slice_write_outside _ _ _ _ _ (by omega), hbytes,
      show (0 : ℤ) + xs.length = xs.length by omega, slice_write_same]

end IOBuf

end LbRpc
