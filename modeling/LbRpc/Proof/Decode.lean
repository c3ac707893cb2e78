import LbRpc.Reactor.TcpConn

/-!
# What one `do_read` of a server connection decodes

The input buffer holds the bytes that arrived and are not dispatched. `do_read` parses
them with the next chunk.

* `EndsEmpty bs`: the last byte of `bs` ends a frame without a body. `pop` empties the
  buffer under the head of such a frame, and the `pop` of its body finds none.
* `doRead_ok`, `doRead_assert`: what `do_read` does where the bytes end otherwise, and
  that it fails the assertion of `pop` where they end so.
-/

namespace LbRpc

open Framing

/-- The bytes end with a frame that has no body. -/
def EndsEmpty (bs : List UInt8) : Prop :=
  (parse format bs).bad = false ∧ (parse format bs).rest = [] ∧
    ∃ f, (parse format bs).frames.getLast? = some f ∧ f.2 = []

theorem parse_nil : parse format [] = ⟨[], [], false⟩ := parse_short format.headLen_pos

theorem not_endsEmpty_of_stop {bs : List UInt8} (h : (parse format bs).frames = []) :
    ¬ EndsEmpty bs := by
  rintro ⟨-, -, f, hf, -⟩
  rw [h] at hf
  cases hf

/-- A string without a complete frame and without a bad head is what is left of it. -/
theorem rest_of_frames_nil {bs : List UInt8} (h : (parse format bs).frames = [])
    (hb : (parse format bs).bad = false) : (parse format bs).rest = bs := by
  rcases parse_cases format bs with hs | ⟨hs, hbad⟩ | ⟨hs, hbad, ht⟩ | ⟨hd, body, rest, rfl, hl, hbad, hs⟩
  · rw [parse_short hs]
  · rw [parse_bad hs hbad] at hb; cases hb
  · rw [parse_waiting hs hbad ht]
  · rw [parse_frame hd body rest hl hbad hs] at h; cases h

/-- The last frame decides, wherever it starts. -/
theorem endsEmpty_frame (hd body rest : List UInt8) (hlen : hd.length = format.headLen)
    (hb : format.bad (format.decode hd) = false) (hs : format.size (format.decode hd) = body.length) :
    EndsEmpty (hd ++ body ++ rest) ↔ (body = [] ∧ rest = []) ∨ EndsEmpty rest := by
  unfold EndsEmpty
  rw [parse_frame hd body rest hlen hb hs]
  dsimp only
  rcases hf : (parse format rest).frames with _ | ⟨g, gs⟩
  · -- the first frame is the last one
    constructor
    · rintro ⟨hbad, hrest, f, hlast, hbody⟩
      cases hlast
      rw [rest_of_frames_nil hf hbad] at hrest
      exact Or.inl ⟨hbody, hrest⟩
    · rintro (⟨rfl, rfl⟩ | ⟨-, -, f, hlast, -⟩)
      · rw [parse_nil]
        exact ⟨rfl, rfl, _, rfl, rfl⟩
      · cases hlast
  · constructor
    · rintro ⟨hbad, hrest, f, hlast, hbody⟩
      rw [List.getLast?_cons_cons] at hlast
      exact Or.inr ⟨hbad, hrest, f, hlast, hbody⟩
    · rintro (⟨-, rfl⟩ | ⟨hbad, hrest, f, hlast, hbody⟩)
      · rw [parse_nil] at hf; cases hf
      · exact ⟨hbad, hrest, f, by rw [List.getLast?_cons_cons]; exact hlast, hbody⟩

namespace TcpConn

variable {c : TcpConn} {p : BufPool} {bs xs : List UInt8}

theorem cleanConn_ok {os : List UInt8} (hi : c.ibuf.Holds bs) (ho : c.obuf.Holds os) :
    ∃ c' p', c.cleanConn p = .ok (c', p') ∧ c'.closed = true ∧ c'.calls = c.calls ∧
      c'.ibuf.buf = none := by
  obtain ⟨ibuf, p1, h1, hnone⟩ := ReactorBuf.clear_ok (p := p) hi
  obtain ⟨obuf, p2, h2, -⟩ := ReactorBuf.clear_ok (p := p1) ho
  unfold cleanConn
  rw [h1]
  dsimp only
  rw [h2]
  exact ⟨_, _, rfl, rfl, rfl, hnone⟩

/-- The head of the next frame, as the loop reads it. -/
theorem peek_head (hi : c.ibuf.Holds bs) (hlen : format.headLen ≤ bs.length) :
    c.ibuf.peek messageHeadLen = .ok (bs.take format.headLen) := by
  have hne : bs ≠ [] := List.length_pos_iff.1 (Nat.lt_of_lt_of_le format.headLen_pos hlen)
  exact hi.peek_take hne hlen

/-- What decoding `bs` from `c` on leaves. -/
structure Decoded (c : TcpConn) (bs : List UInt8) (c' : TcpConn) : Prop where
  calls : c'.calls = c.calls ++ (parse format bs).frames.map frameCall
  closed : c'.closed = ((parse format bs).bad || c.closed)
  cleared : (parse format bs).bad = true → c'.ibuf.buf = none
  ibuf : (parse format bs).bad = false → c'.ibuf.Holds (parse format bs).rest ∧ c'.ibuf.Tight
  obuf : (parse format bs).bad = false → c'.obuf = c.obuf

/-- Nothing to decode yet. -/
theorem Decoded.stop (hp : parse format bs = ⟨[], bs, false⟩) (hi : c.ibuf.Holds bs)
    (ht : c.ibuf.Tight) : Decoded c bs c where
  calls := by rw [hp]; simp
  closed := by rw [hp]; rfl
  cleared := by rw [hp]; intro h; cases h
  ibuf := by rw [hp]; exact fun _ => ⟨hi, ht⟩
  obuf := fun _ => rfl

/-- A bad head. -/
theorem Decoded.bad {c' : TcpConn} (hp : parse format bs = ⟨[], [], true⟩) (hcalls : c'.calls = c.calls)
    (hclosed : c'.closed = true) (hnone : c'.ibuf.buf = none) : Decoded c bs c' where
  calls := by rw [hp, hcalls]; simp
  closed := by rw [hp, hclosed]; rfl
  cleared := fun _ => hnone
  ibuf := by rw [hp]; intro h; cases h
  obuf := by rw [hp]; intro h; cases h

/-- One round of the loop on a complete frame: the head is popped, the call is made, and
the body is popped. -/
theorem decode_frame (fuel : ℕ) {hd body rest : List UInt8}
    (hi : c.ibuf.Holds (hd ++ body ++ rest)) (hlen : hd.length = format.headLen)
    (hb : format.bad (format.decode hd) = false) (hs : format.size (format.decode hd) = body.length) :
    ∃ (ibuf : ReactorBuf) (p' : BufPool), ibuf.Holds (body ++ rest) ∧ ibuf.Tight ∧
      c.decode (fuel + 1) p =
        match ibuf.pop body.length p' with
        | .error f => .error f
        | .ok (ibuf', p'') =>
          decode fuel { c with
            ibuf := ibuf'
            calls := c.calls ++ [frameCall (format.decode hd, body)] } p'' := by
  have hlen8 : hd.length = messageHeadLen := hlen
  have htot := hi.length
  rw [List.append_assoc, List.length_append, List.length_append, hlen8] at htot
  have hmsg := msglen_of_size hb hs
  have hpeek : c.ibuf.peek messageHeadLen = .ok hd := by
    have := peek_head hi (by
      rw [List.length_append, List.length_append, hlen]; omega)
    rw [List.append_assoc, ← hlen, List.take_left] at this
    exact this
  rw [List.append_assoc] at hi
  have hne : hd ++ (body ++ rest) ≠ [] := fun h => by
    have := (List.append_eq_nil_iff.1 h).1
    rw [this] at hlen8
    exact absurd hlen8 (by decide)
  obtain ⟨ibuf, p', hpop, hholds, htight⟩ := ReactorBuf.pop_ok (p := p) hi (hi.buf_ne_none hne)
  refine ⟨ibuf, p', hholds, htight, ?_⟩
  have hbehind : ibuf.behind body.length = body := hholds.behind
  rw [hlen8] at hpop
  rw [decode, if_neg (by omega), hpeek]
  dsimp only
  rw [if_neg (format_not_bad.1 hb), if_neg (by omega), hpop]
  dsimp only
  rw [hmsg, Int.toNat_natCast, hbehind]
  rfl

/-- **The decode loop parses.** With fuel for the bytes it ends, unless they end with a
frame that has no body. -/
theorem decode_ok {os : List UInt8} (bs : List UInt8) : ∀ (fuel : ℕ) (c : TcpConn) (p : BufPool),
    c.ibuf.Holds bs → c.ibuf.Tight → c.obuf.Holds os → bs.length < fuel → ¬ EndsEmpty bs →
    ∃ c' p', c.decode fuel p = .ok (c', p') ∧ Decoded c bs c' := by
  refine parse_induction (F := format) bs ?_ ?_ ?_ ?_
  · intro bs hshort fuel c p hi ht ho hfuel _
    obtain ⟨fuel, rfl⟩ := Nat.exists_eq_succ_of_ne_zero (by omega : fuel ≠ 0)
    have hlen := hi.length
    have hs : bs.length < messageHeadLen := hshort
    refine ⟨c, p, ?_, .stop (parse_short hshort) hi ht⟩
    rw [decode, if_pos (by omega)]
  · intro bs hlong hbad fuel c p hi ht ho hfuel _
    obtain ⟨fuel, rfl⟩ := Nat.exists_eq_succ_of_ne_zero (by omega : fuel ≠ 0)
    have hlen := hi.length
    have hl : messageHeadLen ≤ bs.length := hlong
    obtain ⟨c', p', hclean, hclosed, hcalls, hnone⟩ := cleanConn_ok (p := p) hi ho
    refine ⟨c', p', ?_, .bad (parse_bad hlong hbad) hcalls hclosed hnone⟩
    rw [decode, if_neg (by omega), peek_head hi hlong]
    dsimp only
    rw [if_pos (format_bad.1 hbad), hclean]
  · intro bs hlong hbad hpart fuel c p hi ht ho hfuel _
    obtain ⟨fuel, rfl⟩ := Nat.exists_eq_succ_of_ne_zero (by omega : fuel ≠ 0)
    have hlen := hi.length
    have hl : messageHeadLen ≤ bs.length := hlong
    have hs : bs.length < messageHeadLen + (MsgHead.ofBytes (bs.take format.headLen)).msglen.toInt.toNat :=
      hpart
    refine ⟨c, p, ?_, .stop (parse_waiting hlong hbad hpart) hi ht⟩
    rw [decode, if_neg (by omega), peek_head hi hlong]
    dsimp only
    rw [if_neg (format_not_bad.1 hbad), if_pos (by omega)]
  · intro hd body rest hlen hb hs ih fuel c p hi ht ho hfuel hend
    obtain ⟨fuel, rfl⟩ := Nat.exists_eq_succ_of_ne_zero (by omega : fuel ≠ 0)
    rw [endsEmpty_frame hd body rest hlen hb hs, not_or] at hend
    obtain ⟨ibuf, p', hholds, htight, heq⟩ := decode_frame fuel (p := p) hi hlen hb hs
    -- something is left under the body, so its `pop` finds a buffer
    have hne : body ++ rest ≠ [] := fun h => hend.1 (List.append_eq_nil_iff.1 h)
    obtain ⟨ibuf', p'', hpop, hholds', htight'⟩ :=
      ReactorBuf.pop_ok (p := p') hholds (hholds.buf_ne_none hne)
    rw [hpop] at heq
    rw [List.append_assoc, List.length_append, hlen] at hfuel
    have h8 : format.headLen = 8 := rfl
    rw [List.length_append] at hfuel
    obtain ⟨c', p3, hrun, hdec⟩ := ih fuel
      { c with ibuf := ibuf', calls := c.calls ++ [frameCall (format.decode hd, body)] } p'' hholds'
      htight' ho (by omega) hend.2
    refine ⟨c', p3, heq.trans hrun, ?_⟩
    have hp := parse_frame hd body rest hlen hb hs
    refine ⟨?_, ?_, ?_, ?_, ?_⟩
    · rw [hp, hdec.calls]; simp
    · rw [hp]; exact hdec.closed
    · rw [hp]; exact hdec.cleared
    · rw [hp]; exact hdec.ibuf
    · rw [hp]; exact hdec.obuf

/-- **A frame without a body at the end fails the assertion of `pop`.** -/
theorem decode_assert (bs : List UInt8) : ∀ (fuel : ℕ) (c : TcpConn) (p : BufPool),
    c.ibuf.Holds bs → bs.length < fuel → EndsEmpty bs → c.decode fuel p = .error .assertFail := by
  refine parse_induction (F := format) bs ?_ ?_ ?_ ?_
  · intro bs hshort fuel c p _ _ hend
    exact absurd hend (not_endsEmpty_of_stop (by rw [parse_short hshort]))
  · intro bs hlong hbad fuel c p _ _ hend
    exact absurd hend (not_endsEmpty_of_stop (by rw [parse_bad hlong hbad]))
  · intro bs hlong hbad hpart fuel c p _ _ hend
    exact absurd hend (not_endsEmpty_of_stop (by rw [parse_waiting hlong hbad hpart]))
  · intro hd body rest hlen hb hs ih fuel c p hi hfuel hend
    obtain ⟨fuel, rfl⟩ := Nat.exists_eq_succ_of_ne_zero (by omega : fuel ≠ 0)
    obtain ⟨ibuf, p', hholds, htight, heq⟩ := decode_frame fuel (p := p) hi hlen hb hs
    rcases (endsEmpty_frame hd body rest hlen hb hs).1 hend with ⟨rfl, rfl⟩ | hrest
    · -- the head was all there was: the buffer went back to the pool
      rw [ReactorBuf.pop_none (htight.buf_none hholds)] at heq
      exact heq
    · have hne : body ++ rest ≠ [] := fun h => by
        rw [(List.append_eq_nil_iff.1 h).2] at hrest
        exact absurd hrest (not_endsEmpty_of_stop (by rw [parse_nil]))
      obtain ⟨ibuf', p'', hpop, hholds', -⟩ :=
        ReactorBuf.pop_ok (p := p') hholds (hholds.buf_ne_none hne)
      rw [hpop] at heq
      rw [List.append_assoc, List.length_append, hlen, List.length_append] at hfuel
      have h8 : format.headLen = 8 := rfl
      exact heq.trans (ih fuel _ p'' hholds' (by omega) hrest)

/-! ## `do_read` -/

theorem doRead_of_limit {junk : ℤ → UInt8}
    (hread : c.ibuf.readData (some xs.length) (some xs) junk p = .error .memoryLimit) :
    c.doRead (some xs.length) (some xs) junk p = .error .memoryLimit := by
  unfold doRead
  rw [hread]

theorem doRead_of_read {junk : ℤ → UInt8} {ret : ℤ} {ibuf : ReactorBuf} {p' : BufPool}
    (hread : c.ibuf.readData (some xs.length) (some xs) junk p = .ok (ret, ibuf, p'))
    (hret : ¬ (ret = -1 ∨ ret = 0)) :
    c.doRead (some xs.length) (some xs) junk p =
      match decode (ibuf.length.toNat + 1) { c with ibuf := ibuf } p' with
      | .error f => .error f
      | .ok (c, p) =>
        match c.ibuf.adjust with
        | .error f => .error f
        | .ok ibuf => .ok ({ c with ibuf := ibuf }, p) := by
  unfold doRead
  rw [hread]
  dsimp only
  exact if_neg hret

/-- **One `do_read`**: it meets the memory limit, or parses the pending bytes with the
chunk and keeps what is left at the start of the buffer. -/
theorem doRead_ok {os : List UInt8} (hi : c.ibuf.Holds bs) (h0 : c.ibuf.AtStart)
    (ho : c.obuf.Holds os) (hxs : xs ≠ []) (hfit : (xs.length : ℤ) + bs.length ≤ 8388608)
    (hend : ¬ EndsEmpty (bs ++ xs)) (p : BufPool) (junk : ℤ → UInt8) :
    (c.doRead (some xs.length) (some xs) junk p = .error .memoryLimit ∧ ¬ p.HasRoom) ∨
      ∃ c' p', c.doRead (some xs.length) (some xs) junk p = .ok (c', p') ∧
        Decoded c (bs ++ xs) c' ∧ c'.ibuf.AtStart := by
  rcases ReactorBuf.readData_ok hi h0 hxs hfit p junk with
    ⟨herr, hfull⟩ | ⟨ibuf, p1, hread, hholds, htight⟩
  · exact Or.inl ⟨doRead_of_limit herr, hfull⟩
  · right
    have hpos := List.length_pos_iff.2 hxs
    have hlen := hholds.length
    obtain ⟨c', p2, hdec, hc'⟩ := decode_ok (bs ++ xs) (ibuf.length.toNat + 1) { c with ibuf := ibuf } p1
      hholds htight ho (by omega) hend
    rw [doRead_of_read hread (by omega), hdec]
    dsimp only
    rcases hbad : (parse format (bs ++ xs)).bad with _ | _
    · -- `adjust` moves what is left to the start
      obtain ⟨hrest, hrt⟩ := hc'.ibuf hbad
      obtain ⟨ibuf', hadj, hh, ht, hs⟩ := ReactorBuf.adjust_ok hrest hrt
      rw [hadj]
      refine ⟨_, _, rfl, ⟨hc'.calls, hc'.closed, ?_, fun _ => ⟨hh, ht⟩, hc'.obuf⟩, hs⟩
      intro h
      rw [hbad] at h; cases h
    · -- behind `clean_conn` there is no buffer to adjust
      have hnone := hc'.cleared hbad
      have hadj : c'.ibuf.adjust = .ok c'.ibuf := by
        unfold ReactorBuf.adjust
        rw [hnone]
      rw [hadj]
      refine ⟨_, _, rfl, ⟨hc'.calls, hc'.closed, fun _ => hnone, ?_, hc'.obuf⟩, ?_⟩
      · intro h
        rw [hbad] at h; cases h
      · show c'.ibuf.AtStart
        unfold ReactorBuf.AtStart
        rw [hnone]
        trivial

/-- One `do_read` of bytes that end with a frame without a body. -/
theorem doRead_assert (hi : c.ibuf.Holds bs) (h0 : c.ibuf.AtStart) (hxs : xs ≠ [])
    (hfit : (xs.length : ℤ) + bs.length ≤ 8388608) (hend : EndsEmpty (bs ++ xs)) (p : BufPool)
    (junk : ℤ → UInt8) :
    ¬ p.HasRoom ∨
      c.doRead (some xs.length) (some xs) junk p = .error .assertFail := by
  rcases ReactorBuf.readData_ok hi h0 hxs hfit p junk with
    ⟨-, hfull⟩ | ⟨ibuf, p1, hread, hholds, htight⟩
  · exact Or.inl hfull
  · right
    have hpos := List.length_pos_iff.2 hxs
    have hlen := hholds.length
    rw [doRead_of_read hread (by omega), decode_assert (bs ++ xs) (ibuf.length.toNat + 1)
      { c with ibuf := ibuf } p1 hholds (by omega) hend]

end TcpConn

end LbRpc
