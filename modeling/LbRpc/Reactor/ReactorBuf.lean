import Mathlib.Algebra.Ring.Int.Defs
import LbRpc.Reactor.BufPool

/-!
# Input and output buffers

`ReactorBuf`, `InputBuf` and `OutputBuf` (`reactor/include/reactor_buf.h`,
`reactor/src/reactor_buf.cpp`). The results of `ioctl`, `read` and `write` are
arguments; a call that was interrupted is not counted, the source repeats it.

* `Holds rb bs`: the pending bytes are `bs`, at the start of the buffer; no buffer is
  held when there are none.
* `readData_ok`, `sendData_cases`, `pop_ok`, `write2fd_ok`: what the operations do to the
  pending bytes.
-/

namespace LbRpc

/-- A `ReactorBuf`: the buffer it holds, if any. -/
structure ReactorBuf where
  buf : Option IOBuf

namespace ReactorBuf

/-- The constructor. -/
def empty : ReactorBuf := ⟨none⟩

/-- `ReactorBuf::length`. -/
def length (rb : ReactorBuf) : ℤ :=
  match rb.buf with
  | none => 0
  | some b => b.length

/-- `ReactorBuf::pop`: a buffer that gets empty goes back to the pool. -/
def pop (len : ℤ) (rb : ReactorBuf) (p : BufPool) : Except Crash (ReactorBuf × BufPool) :=
  match rb.buf with
  | none => .error .assertFail
  | some b =>
    if len ≤ b.length then
      if (b.pop len).length = 0 then
        match p.revert (b.pop len) with
        | .error f => .error f
        | .ok p => .ok (⟨none⟩, p)
      else .ok (⟨some (b.pop len)⟩, p)
    else .error .assertFail

/-- `ReactorBuf::clear`. -/
def clear (rb : ReactorBuf) (p : BufPool) : Except Crash (ReactorBuf × BufPool) :=
  match rb.buf with
  | none => .ok (rb, p)
  | some b =>
    match p.revert b with
    | .error f => .error f
    | .ok p => .ok (⟨none⟩, p)

/-- `InputBuf::adjust`. -/
def adjust (rb : ReactorBuf) : Except Crash ReactorBuf :=
  match rb.buf with
  | none => .ok rb
  | some b =>
    match b.adjust with
    | .error f => .error f
    | .ok b => .ok ⟨some b⟩

/-- The first `n` bytes at `InputBuf::data`. -/
def peek (n : ℕ) (rb : ReactorBuf) : Except Crash (List UInt8) :=
  match rb.buf with
  | none => .error .outOfBounds
  | some b => b.peek n

/-- The bytes that a callback finds at `InputBuf::data`. -/
def behind (n : ℕ) (rb : ReactorBuf) : List UInt8 :=
  match rb.buf with
  | none => []
  | some b => Memory.slice b.data b.head n

/-- The first half of `read_data` and of `send_data`: a buffer with room for `n` more
bytes, or `none` when the pool has none that large. -/
def reserve (n : ℤ) (junk : ℤ → UInt8) (rb : ReactorBuf) (p : BufPool) :
    Except Crash (Option IOBuf × BufPool) :=
  match rb.buf with
  | none => p.allocBuf n junk
  | some b =>
    if b.head ≠ 0 then .error .assertFail
    else if b.capacity - b.length < n then
      match p.allocBuf (n + b.length) junk with
      | .error f => .error f
      | .ok (none, p) => .ok (none, p)
      | .ok (some new_buf, p) =>
        match new_buf.copy b with
        | .error f => .error f
        | .ok new_buf =>
          match p.revert b with
          | .error f => .error f
          | .ok p => .ok (some new_buf, p)
    else .ok (some b, p)

/-- `read_data` and `send_data` ask for a larger buffer, and the sum `n + _buf->length` is
beyond `int`. What `reserve` does then is not what the source does. -/
def sumOverflows (n : ℤ) (rb : ReactorBuf) : Bool :=
  match rb.buf with
  | none => false
  | some b => b.head = 0 ∧ b.capacity - b.length < n ∧ 2 ^ 31 ≤ n + b.length

/-- `InputBuf::read_data`. `fionread` is what `ioctl` finds, `got` what `read` brings;
`none` stands for `-1`. -/
def readData (fionread : Option ℤ) (got : Option (List UInt8)) (junk : ℤ → UInt8) (rb : ReactorBuf)
    (p : BufPool) : Except Crash (ℤ × ReactorBuf × BufPool) :=
  match fionread with
  | none => .ok (-1, rb, p)
  | some need_read =>
    match rb.reserve need_read junk p with
    | .error f => .error f
    | .ok (none, p) => .ok (-1, rb, p)
    | .ok (some b, p) =>
      match got with
      | none => .ok (-1, ⟨some b⟩, p)
      | some bs =>
        if bs = [] then .ok (0, ⟨some b⟩, p)
        else if need_read ≠ 0 ∧ bs.length ≠ need_read then .error .assertFail
        else
          match b.append bs with
          | .error f => .error f
          | .ok b => .ok (bs.length, ⟨some b⟩, p)

/-- `OutputBuf::send_data`. -/
def sendData (bs : List UInt8) (junk : ℤ → UInt8) (rb : ReactorBuf) (p : BufPool) :
    Except Crash (ℤ × ReactorBuf × BufPool) :=
  match rb.reserve bs.length junk p with
  | .error f => .error f
  | .ok (none, p) => .ok (-1, rb, p)
  | .ok (some b, p) =>
    match b.append bs with
    | .error f => .error f
    | .ok b => .ok (0, ⟨some b⟩, p)

/-- `OutputBuf::write2fd`, with the bytes that the kernel takes. `room` is how many it can
take, none of them for `EAGAIN`; `none` stands for another error. -/
def write2fd (room : Option ℕ) (rb : ReactorBuf) : Except Crash (ℤ × List UInt8 × ReactorBuf) :=
  match rb.buf with
  | none => .error .assertFail
  | some b =>
    if b.head ≠ 0 then .error .assertFail
    else
      match room with
      | none => .ok (-1, [], rb)
      | some room =>
        match b.peek (min room b.length.toNat) with
        | .error f => .error f
        | .ok taken =>
          if taken = [] then .ok (0, [], rb)
          else
            match (b.pop taken.length).adjust with
            | .error f => .error f
            | .ok b => .ok (taken.length, taken, ⟨some b⟩)

/-- **The pending bytes of a buffer.** An input buffer that is in use is not empty. -/
def Holds (rb : ReactorBuf) (bs : List UInt8) : Prop :=
  match rb.buf with
  | none => bs = []
  | some b => b.Holds bs ∧ BufPool.Classed b

/-- The pending bytes start the buffer. -/
def AtStart (rb : ReactorBuf) : Prop :=
  match rb.buf with
  | none => True
  | some b => b.head = 0

/-- A buffer is held only for pending bytes. -/
def Tight (rb : ReactorBuf) : Prop :=
  match rb.buf with
  | none => True
  | some b => b.length ≠ 0

variable {rb : ReactorBuf} {p : BufPool} {bs xs ys : List UInt8}

theorem holds_empty : Holds empty [] := rfl

theorem atStart_of_none (h : rb.buf = none) : rb.AtStart := by
  unfold AtStart
  rw [h]
  trivial

theorem Holds.length (h : rb.Holds bs) : rb.length = bs.length := by
  unfold Holds at h
  unfold ReactorBuf.length
  rcases hb : rb.buf with _ | b
  · rw [hb] at h; rw [h]; rfl
  · rw [hb] at h; exact h.1.length

theorem Holds.behind (h : rb.Holds (xs ++ ys)) : rb.behind xs.length = xs := by
  unfold Holds at h
  unfold ReactorBuf.behind
  rcases hb : rb.buf with _ | b
  · rw [hb] at h
    exact (List.append_eq_nil_iff.1 h).1.symm
  · rw [hb] at h; exact h.1.slice

theorem Holds.buf_ne_none (h : rb.Holds bs) (hne : bs ≠ []) : rb.buf ≠ none := by
  intro hb
  unfold Holds at h
  rw [hb] at h
  exact hne h

theorem Holds.peek_take (h : rb.Holds bs) (hne : bs ≠ []) {n : ℕ} (hn : n ≤ bs.length) :
    rb.peek n = .ok (bs.take n) := by
  obtain ⟨b, hb⟩ := Option.ne_none_iff_exists'.1 (h.buf_ne_none hne)
  unfold Holds at h
  unfold ReactorBuf.peek
  rw [hb] at h ⊢
  exact h.1.peek_take hn

/-- **`pop` takes bytes off the front**, of a buffer that has one to take them from. -/
theorem pop_ok (h : rb.Holds (xs ++ ys)) (hbuf : rb.buf ≠ none) :
    ∃ rb' p', rb.pop xs.length p = .ok (rb', p') ∧ rb'.Holds ys ∧ rb'.Tight := by
  obtain ⟨b, hb⟩ := Option.ne_none_iff_exists'.1 hbuf
  unfold Holds at h
  rw [hb] at h
  have hlen := h.1.length
  have hpop := h.1.pop
  rw [List.length_append] at hlen
  unfold ReactorBuf.pop
  rw [hb]
  dsimp only
  rw [if_pos (by push_cast at hlen; omega)]
  by_cases h0 : (b.pop xs.length).length = 0
  · -- all is taken, and the buffer goes back to the list of its class
    have hys : ys = [] := List.length_eq_zero_iff.1 (by have := hpop.length; omega)
    have hcl : BufPool.Classed (b.pop xs.length) := h.2
    obtain ⟨p', hp'⟩ := BufPool.revert_ok (p := p) hcl
    rw [if_pos h0, hp']
    exact ⟨_, _, rfl, hys, trivial⟩
  · rw [if_neg h0]
    exact ⟨_, _, rfl, ⟨hpop, h.2⟩, h0⟩

/-- `pop` of the first `n` bytes. -/
theorem pop_drop (h : rb.Holds bs) (hne : bs ≠ []) {n : ℕ} (hn : n ≤ bs.length) (p : BufPool) :
    ∃ rb' p', rb.pop n p = .ok (rb', p') ∧ rb'.Holds (bs.drop n) ∧ rb'.Tight := by
  have hbuf := h.buf_ne_none hne
  have htl : (bs.take n).length = n := by rw [List.length_take]; omega
  rw [← List.take_append_drop n bs] at h
  have := pop_ok (p := p) h hbuf
  rw [htl] at this
  exact this

/-- `pop` of a part of the pending bytes moves their start. -/
theorem pop_not_atStart (h : rb.Holds bs) (h0 : rb.AtStart) {n : ℕ} (hpos : 0 < n) (hn : n < bs.length)
    {rb' : ReactorBuf} {p' : BufPool} (hpop : rb.pop n p = .ok (rb', p')) : ¬ rb'.AtStart := by
  have hbuf := h.buf_ne_none (List.length_pos_iff.1 (by omega))
  obtain ⟨b, hb⟩ := Option.ne_none_iff_exists'.1 hbuf
  unfold Holds at h
  unfold AtStart at h0
  rw [hb] at h h0
  dsimp only at h h0
  have hlen := h.1.length
  have hleft : (b.pop n).length ≠ 0 := by
    show b.length - n ≠ 0
    omega
  unfold ReactorBuf.pop at hpop
  rw [hb] at hpop
  dsimp only at hpop
  rw [if_pos (by omega), if_neg hleft] at hpop
  obtain ⟨rfl, -⟩ := Prod.mk.inj (Except.ok.inj hpop)
  show b.head + n ≠ 0
  omega

/-- `pop` of an empty buffer fails its assertion. -/
theorem pop_none {len : ℤ} (h : rb.buf = none) : rb.pop len p = .error .assertFail := by
  unfold ReactorBuf.pop
  rw [h]

/-- A tight buffer without pending bytes is none at all. -/
theorem Tight.buf_none (ht : rb.Tight) (h : rb.Holds []) : rb.buf = none := by
  unfold Tight at ht
  unfold Holds at h
  rcases hb : rb.buf with _ | b
  · rfl
  · rw [hb] at h ht
    exact absurd h.1.length ht

theorem clear_ok (h : rb.Holds bs) : ∃ rb' p', rb.clear p = .ok (rb', p') ∧ rb'.buf = none := by
  unfold Holds at h
  unfold ReactorBuf.clear
  rcases hb : rb.buf with _ | b
  · exact ⟨rb, p, rfl, hb⟩
  · rw [hb] at h
    obtain ⟨p', hp'⟩ := BufPool.revert_ok (p := p) h.2
    dsimp only
    rw [hp']
    exact ⟨_, _, rfl, rfl⟩

/-- `adjust` keeps the pending bytes and moves them to the start. -/
theorem adjust_ok (h : rb.Holds bs) (ht : rb.Tight) :
    ∃ rb', rb.adjust = .ok rb' ∧ rb'.Holds bs ∧ rb'.Tight ∧ rb'.AtStart := by
  unfold Holds at h
  unfold ReactorBuf.adjust
  rcases hb : rb.buf with _ | b
  · rw [hb] at h
    refine ⟨rb, rfl, ?_, ht, ?_⟩
    · unfold Holds; rw [hb]; exact h
    · unfold AtStart; rw [hb]; trivial
  · unfold Tight at ht
    rw [hb] at h ht
    obtain ⟨b', hb', hholds, hhead, hcap⟩ := h.1.adjust
    dsimp only
    rw [hb']
    refine ⟨_, rfl, ⟨hholds, ?_⟩, ?_, hhead⟩
    · obtain ⟨c, hc⟩ := h.2
      exact ⟨c, hcap.trans hc⟩
    · show b'.length ≠ 0
      rw [hholds.length, ← h.1.length]
      exact ht

theorem sumOverflows_false {n : ℤ} (h : n + rb.length < 2 ^ 31) : rb.sumOverflows n = false := by
  unfold ReactorBuf.length at h
  unfold sumOverflows
  rcases hb : rb.buf with _ | b
  · rfl
  · rw [hb] at h
    rw [decide_eq_false_iff_not]
    rintro ⟨-, -, hbig⟩
    exact absurd hbig (Int.not_le.2 h)

/-- **`reserve` keeps the pending bytes and makes room**, meets the memory limit, or finds no
class that is large enough. -/
theorem reserve_cases (n : ℤ) (h : rb.Holds bs) (h0 : rb.AtStart) (p : BufPool) (junk : ℤ → UInt8) :
    (rb.reserve n junk p = .error .memoryLimit ∧ ¬ p.HasRoom) ∨
      (8388608 < n + bs.length ∧ ∃ p', rb.reserve n junk p = .ok (none, p')) ∨
      ∃ b p', rb.reserve n junk p = .ok (some b, p') ∧ b.Holds bs ∧ b.head = 0 ∧
        n + bs.length ≤ b.capacity ∧ BufPool.Classed b := by
  unfold Holds at h
  unfold AtStart at h0
  unfold ReactorBuf.reserve
  rcases hb : rb.buf with _ | b
  · rw [hb] at h
    subst h
    rcases BufPool.allocBuf_cases n p junk with herr | ⟨hbig, hnone⟩ | ⟨b, p', hok, hb', hz, hcap, hcl⟩
    · exact Or.inl herr
    · have h8 : 8388608 < n := hbig
      exact Or.inr (Or.inl ⟨by simpa using h8, p, hnone⟩)
    · exact Or.inr (Or.inr ⟨b, p', hok, hb', hz, by simpa using hcap, hcl⟩)
  · rw [hb] at h h0
    dsimp only at h h0 ⊢
    have hlen := h.1.length
    rw [if_neg (by simpa using h0)]
    by_cases hroom : b.capacity - b.length < n
    · rw [if_pos hroom]
      rcases BufPool.allocBuf_cases (n + b.length) p junk with
        ⟨herr, hfull⟩ | ⟨hbig, hnone⟩ | ⟨nb, p', hok, -, -, hcap, hcl⟩
      · rw [herr]; exact Or.inl ⟨rfl, hfull⟩
      · have h8 : 8388608 < n + b.length := hbig
        rw [hnone]
        exact Or.inr (Or.inl ⟨by omega, p, rfl⟩)
      · -- too little room in a buffer that its bytes fit: more than nothing is asked for
        have hn : (0 : ℤ) ≤ n := by
          have := h.1.fits
          omega
        obtain ⟨nb', hcopy, hholds, hhead, hcap'⟩ := h.1.copy (n := nb) (by omega)
        obtain ⟨p'', hrev⟩ := BufPool.revert_ok (p := p') h.2
        rw [hok]
        dsimp only
        rw [hcopy]
        dsimp only
        rw [hrev]
        refine Or.inr (Or.inr ⟨nb', p'', rfl, hholds, hhead, by omega, ?_⟩)
        obtain ⟨c, hc⟩ := hcl
        exact ⟨c, hcap'.trans hc⟩
    · rw [if_neg hroom]
      exact Or.inr (Or.inr ⟨b, p, rfl, h.1, h0, by omega, h.2⟩)

/-- **`read_data` puts what it reads behind the pending bytes.** -/
theorem readData_ok (h : rb.Holds bs) (h0 : rb.AtStart) (hxs : xs ≠ [])
    (hfit : (xs.length : ℤ) + bs.length ≤ 8388608) (p : BufPool) (junk : ℤ → UInt8) :
    (rb.readData (some xs.length) (some xs) junk p = .error .memoryLimit ∧ ¬ p.HasRoom) ∨
      ∃ rb' p', rb.readData (some xs.length) (some xs) junk p = .ok (xs.length, rb', p') ∧
        rb'.Holds (bs ++ xs) ∧ rb'.Tight := by
  unfold ReactorBuf.readData
  dsimp only
  rcases reserve_cases xs.length h h0 p junk with
    ⟨herr, hfull⟩ | ⟨hbig, -⟩ | ⟨b, p', hok, hb, hz, hcap, hcl⟩
  · rw [herr]; exact Or.inl ⟨rfl, hfull⟩
  · omega
  · obtain ⟨b', happ, hholds, -, hcap'⟩ := hb.append xs hz (by omega)
    rw [hok]
    dsimp only
    rw [if_neg hxs, if_neg (by simp), happ]
    refine Or.inr ⟨_, _, rfl, ⟨hholds, ?_⟩, ?_⟩
    · obtain ⟨c, hc⟩ := hcl
      exact ⟨c, hcap'.trans hc⟩
    · show b'.length ≠ 0
      have := List.length_pos_iff.2 hxs
      rw [hholds.length, List.length_append]
      omega

/-- **`send_data` puts the data behind the pending bytes**, meets the memory limit, or fails
and leaves the buffer alone because no class is large enough. -/
theorem sendData_cases (h : rb.Holds bs) (h0 : rb.AtStart) (xs : List UInt8) (p : BufPool)
    (junk : ℤ → UInt8) :
    (rb.sendData xs junk p = .error .memoryLimit ∧ ¬ p.HasRoom) ∨
      (8388608 < (xs.length : ℤ) + bs.length ∧ ∃ p', rb.sendData xs junk p = .ok (-1, rb, p')) ∨
      ∃ rb' p', rb.sendData xs junk p = .ok (0, rb', p') ∧ rb'.Holds (bs ++ xs) ∧ rb'.AtStart := by
  unfold ReactorBuf.sendData
  rcases reserve_cases xs.length h h0 p junk with
    ⟨herr, hfull⟩ | ⟨hbig, p', hnone⟩ | ⟨b, p', hok, hb, hz, hcap, hcl⟩
  · rw [herr]; exact Or.inl ⟨rfl, hfull⟩
  · rw [hnone]; exact Or.inr (Or.inl ⟨hbig, p', rfl⟩)
  · obtain ⟨b', happ, hholds, hz', hcap'⟩ := hb.append xs hz (by omega)
    rw [hok]
    dsimp only
    rw [happ]
    refine Or.inr (Or.inr ⟨_, _, rfl, ⟨hholds, ?_⟩, hz'⟩)
    obtain ⟨c, hc⟩ := hcl
    exact ⟨c, hcap'.trans hc⟩

/-- **`send_data` of more than every class holds** fails and leaves the buffer alone. -/
theorem sendData_refused (h : rb.Holds bs) (h0 : rb.AtStart)
    (hbig : 8388608 < (xs.length : ℤ) + bs.length) (p : BufPool) (junk : ℤ → UInt8) :
    rb.sendData xs junk p = .ok (-1, rb, p) := by
  have h8 : MemCap.m8M.size = 8388608 := rfl
  have hlen := h.length
  unfold Holds at h
  unfold AtStart at h0
  unfold ReactorBuf.length at hlen
  unfold ReactorBuf.sendData ReactorBuf.reserve
  rcases hb : rb.buf with _ | b
  · rw [hb] at hlen
    dsimp only at hlen ⊢
    rw [BufPool.allocBuf_none (by omega)]
  · rw [hb] at h h0 hlen
    obtain ⟨c, hc⟩ := h.2
    have hcap := BufPool.size_le c
    dsimp only at h0 hlen ⊢
    rw [if_neg (by simpa using h0), if_pos (by omega), BufPool.allocBuf_none (by omega)]

/-- **`write2fd` hands bytes off the front to the kernel.** -/
theorem write2fd_ok (h : rb.Holds bs) (h0 : rb.AtStart) (hbuf : rb.buf ≠ none) (room : ℕ) :
    ∃ (taken : List UInt8) (rb' : ReactorBuf) (rest : List UInt8),
      rb.write2fd (some room) = .ok (taken.length, taken, rb') ∧ bs = taken ++ rest ∧
      rb'.Holds rest ∧ rb'.AtStart := by
  obtain ⟨b, hb⟩ := Option.ne_none_iff_exists'.1 hbuf
  have hrb := h
  have hrb0 := h0
  unfold Holds at h
  unfold AtStart at h0
  rw [hb] at h h0
  dsimp only at h h0
  unfold ReactorBuf.write2fd
  rw [hb]
  dsimp only
  rw [if_neg (by simpa using h0)]
  have hlen := h.1.length
  have hn : b.length.toNat = bs.length := by omega
  have hle : min room bs.length ≤ bs.length := Nat.min_le_right _ _
  have htl : (bs.take (min room bs.length)).length = min room bs.length := by
    rw [List.length_take]; omega
  rw [hn, h.1.peek_take hle]
  dsimp only
  by_cases ht : bs.take (min room bs.length) = []
  · rw [if_pos ht]
    exact ⟨[], rb, bs, rfl, rfl, hrb, hrb0⟩
  · obtain ⟨b', hadj, hholds, hhead, hcap⟩ := (h.1.pop_drop hle).adjust
    rw [if_neg ht, htl, hadj]
    refine ⟨bs.take (min room bs.length), ⟨some b'⟩, bs.drop (min room bs.length), ?_,
      (List.take_append_drop _ _).symm, ⟨hholds, ?_⟩, hhead⟩
    · rw [htl]
    obtain ⟨c, hc⟩ := h.2
    exact ⟨c, hcap.trans hc⟩

/-- An error of `write` leaves the pending bytes. -/
theorem write2fd_error (h0 : rb.AtStart) (hbuf : rb.buf ≠ none) :
    rb.write2fd none = .ok (-1, [], rb) := by
  obtain ⟨b, hb⟩ := Option.ne_none_iff_exists'.1 hbuf
  unfold AtStart at h0
  rw [hb] at h0
  unfold ReactorBuf.write2fd
  rw [hb]
  dsimp only
  rw [if_neg (by simpa using h0)]

/-- Pending bytes that do not start the buffer fail the assertion of `write2fd`. -/
theorem write2fd_assert (h0 : ¬ rb.AtStart) (room : Option ℕ) :
    rb.write2fd room = .error .assertFail := by
  unfold AtStart at h0
  unfold ReactorBuf.write2fd
  rcases hb : rb.buf with _ | b
  · rfl
  · rw [hb] at h0
    exact if_pos h0

/-- They fail that of `send_data`. -/
theorem sendData_assert (h0 : ¬ rb.AtStart) (xs : List UInt8) (p : BufPool) (junk : ℤ → UInt8) :
    rb.sendData xs junk p = .error .assertFail := by
  unfold AtStart at h0
  unfold ReactorBuf.sendData ReactorBuf.reserve
  rcases hb : rb.buf with _ | b
  · rw [hb] at h0
    exact absurd trivial h0
  · rw [hb] at h0
    dsimp only
    rw [if_pos h0]

end ReactorBuf

end LbRpc
