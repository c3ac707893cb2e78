import LbRpc.Proof.ClientStream
import LbRpc.Proof.Decode

/-!
# A message that a connection does not take

`TCPConn::send_message` puts the head of a message behind the pending bytes and then its
body. When the body finds no room, it takes the head back with `pop`, which works at the
other end of the buffer.

* `RolledBack os c`: the pending bytes are `os` still, and what comes later finds them so.
* `rolledBack_iff`: so it is **if and only if** nothing was pending, or the head found no
  room either.
* `rolledBack_fails`: otherwise the next `write` fails its assertion.
-/

namespace LbRpc

open Framing

namespace TcpConn

variable {c c' : TcpConn} {is os : List UInt8} {m : Message} {p p' : BufPool} {junk : ℤ → UInt8}

/-- **The bytes `os` are pending as if nothing had been sent.** What `do_write` writes, and
what then stays, is `os`, whatever the kernel takes or refuses. -/
structure RolledBack (os : List UInt8) (c : TcpConn) : Prop where
  pending : c.obuf.Holds os
  atStart : c.obuf.AtStart
  writes : ∀ (rooms : List (Option ℕ)) (p : BufPool), ∃ written del c' p' rest,
    c.doWrite rooms p = .ok (written, del, c', p') ∧ os = written ++ rest
  sends : ∀ (m : Message) (junk : ℤ → UInt8) (p : BufPool),
    c.sendMessage m junk p ≠ .error .assertFail

/-- A `do_write` that may meet an error ends too; it closes the connection then. -/
theorem doWrite_cases (hi : c.ibuf.Holds is) (ho : c.obuf.Holds os) (h0 : c.obuf.AtStart)
    (rooms : List (Option ℕ)) (p : BufPool) : ∃ written del c' p' rest,
    c.doWrite rooms p = .ok (written, del, c', p') ∧ os = written ++ rest := by
  obtain ⟨e, written, obuf, rest, hrun, hos, hb, -, -⟩ := writeLoop_cases rooms os c.obuf ho h0
  unfold doWrite
  rw [hrun]
  cases e with
  | done => exact ⟨_, _, _, _, rest, rfl, hos⟩
  | failed =>
    obtain ⟨c', p', hclean, -, -, -⟩ := cleanConn_ok (c := { c with obuf := obuf }) (p := p) hi hb
    dsimp only
    rw [hclean]
    exact ⟨_, _, _, _, rest, rfl, hos⟩

/-- Pending bytes at the start of the buffer are all that later calls look at. -/
theorem RolledBack.of_holds (hi : c.ibuf.Holds is) (ho : c.obuf.Holds os) (h0 : c.obuf.AtStart) :
    RolledBack os c where
  pending := ho
  atStart := h0
  writes := doWrite_cases hi ho h0
  sends := by
    intro m junk p h
    rcases sendMessage_cases ho h0 m p junk with herr | ⟨c', p', hrej, -⟩ | ⟨obuf, p', hacc, -, -⟩
    · rw [h] at herr; cases herr
    · rw [h] at hrej; cases hrej
    · rw [h] at hacc; cases hacc

/-- A `send_message` that returned -1 was refused. -/
theorem refused_of_ret {add : Bool} (ho : c.obuf.Holds os) (h0 : c.obuf.AtStart)
    (h : c.sendMessage m junk p = .ok (-1, add, c', p')) : Refused os m c c' := by
  rcases sendMessage_cases ho h0 m p junk with herr | ⟨c'', p'', hrej, href⟩ | ⟨obuf, p'', hacc, -, -⟩
  · rw [h] at herr; cases herr
  · rw [h] at hrej; cases hrej
    exact href
  · rw [h] at hacc
    cases congrArg Prod.fst (Except.ok.inj hacc)

/-- **The roll-back behind pending bytes** leaves a buffer that is not empty and does not
start at 0. -/
theorem Refused.stuck (h : Refused os m c c') (hne : os ≠ [])
    (hlen : os.length + messageHeadLen ≤ 8388608) : c'.obuf.length ≠ 0 ∧ ¬ c'.obuf.AtStart := by
  have hpos := List.length_pos_iff.2 hne
  cases h with
  | head hfull => omega
  | @body obuf ob p p' _ hb hb0 hpop =>
    have hall : (os ++ (MsgHead.ofMessage m).toBytes).length = os.length + messageHeadLen := by
      rw [List.length_append, MsgHead.length_toBytes]
    refine ⟨?_, ReactorBuf.pop_not_atStart hb hb0 (by decide) (by omega) hpop⟩
    obtain ⟨ob', p'', hpop', hholds, -⟩ := pop_head m hb p
    rw [hpop] at hpop'
    obtain ⟨rfl, -⟩ := Prod.mk.inj (Except.ok.inj hpop')
    show ob.length ≠ 0
    rw [hholds.length, List.length_drop]
    omega

/-- Such a buffer fails the assertion of `write2fd` at the next event. -/
theorem doWrite_assert (hne : c.obuf.length ≠ 0) (h0 : ¬ c.obuf.AtStart) (room : Option ℕ)
    (rooms : List (Option ℕ)) (p : BufPool) : c.doWrite (room :: rooms) p = .error .assertFail := by
  unfold doWrite writeLoop
  rw [if_neg hne, ReactorBuf.write2fd_assert h0]

/-- It fails that of `send_data` at the next message. -/
theorem sendMessage_assert (h0 : ¬ c.obuf.AtStart) (m : Message) (junk : ℤ → UInt8) (p : BufPool) :
    c.sendMessage m junk p = .error .assertFail := by
  unfold sendMessage
  dsimp only
  rw [ReactorBuf.sendData_assert h0]

/-- **The roll-back of a head that is alone** in the buffer. -/
theorem Refused.rolledBack (h : Refused os m c c') (hi : c.ibuf.Holds is) (ho : c.obuf.Holds os)
    (h0 : c.obuf.AtStart) (hcond : os = [] ∨ 8388608 < os.length + messageHeadLen) :
    RolledBack os c' := by
  cases h with
  | head => exact .of_holds hi ho h0
  | @body obuf ob p p' hlen hb hb0 hpop =>
    obtain rfl : os = [] := hcond.resolve_right (by omega)
    -- `pop` takes all there is, and the buffer goes back to the pool
    obtain ⟨ob', p'', hpop', hholds, htight⟩ := pop_head m hb p
    rw [hpop] at hpop'
    obtain ⟨rfl, -⟩ := Prod.mk.inj (Except.ok.inj hpop')
    have hnil : ([] ++ (MsgHead.ofMessage m).toBytes).drop messageHeadLen = [] := rfl
    rw [hnil] at hholds
    exact .of_holds hi hholds (ReactorBuf.atStart_of_none (htight.buf_none hholds))

/-- **A refused message leaves the pending bytes** as they were if and only if there were
none, or its head found no room behind them. -/
theorem rolledBack_iff {add : Bool} (hi : c.ibuf.Holds is) (ho : c.obuf.Holds os)
    (h0 : c.obuf.AtStart) (hret : c.sendMessage m junk p = .ok (-1, add, c', p')) :
    RolledBack os c' ↔ os = [] ∨ 8388608 < os.length + messageHeadLen := by
  have href := refused_of_ret ho h0 hret
  refine ⟨fun h => ?_, href.rolledBack hi ho h0⟩
  by_contra hcond
  rw [not_or, Nat.not_lt] at hcond
  exact (href.stuck hcond.1 hcond.2).2 h.atStart

/-- A message that is too large with its head and the pending bytes is refused. -/
theorem sendMessage_big (ho : c.obuf.Holds os) (h0 : c.obuf.AtStart) (hroom : p.HasRoom)
    (junk : ℤ → UInt8) (hbig : 8388608 < (m.data.length : ℤ) + (os.length + messageHeadLen)) :
    ∃ c' p', c.sendMessage m junk p = .ok (-1, false, c', p') := by
  have h8 : (MsgHead.ofMessage m).toBytes.length = messageHeadLen := MsgHead.length_toBytes _
  unfold sendMessage
  dsimp only
  rcases ReactorBuf.sendData_cases ho h0 (MsgHead.ofMessage m).toBytes p junk with
    ⟨-, hlim⟩ | ⟨-, p1, hrej⟩ | ⟨ob, p1, hok, hb, hb0⟩
  · exact absurd hroom hlim
  · rw [hrej]
    exact ⟨_, _, rfl⟩
  · have hfull : 8388608 < (m.data.length : ℤ) + (os ++ (MsgHead.ofMessage m).toBytes).length := by
      rw [List.length_append, h8]
      omega
    obtain ⟨ob', p2, hpop, -, -⟩ := pop_head m hb p1
    rw [hok]
    dsimp only
    rw [if_neg (by decide), ReactorBuf.sendData_refused hb hb0 hfull]
    dsimp only
    rw [if_pos (by decide), hpop]
    exact ⟨_, _, rfl⟩

/-- A message that no buffer holds. -/
def tooLarge : Message := ⟨2, List.replicate 8388608 0⟩

theorem length_tooLarge : tooLarge.data.length = 8388608 := List.length_replicate

/-- Refused on an idle connection. -/
theorem rolledBack_idle : ∃ c' p',
    TcpConn.new.sendMessage tooLarge (fun _ => 0) BufPool.bare = .ok (-1, false, c', p') ∧
      (RolledBack [] c' ↔ ([] : List UInt8) = [] ∨ 8388608 < ([] : List UInt8).length + messageHeadLen) := by
  have ho : TcpConn.new.obuf.Holds [] := ReactorBuf.holds_empty
  have hi : TcpConn.new.ibuf.Holds [] := ReactorBuf.holds_empty
  have hbig : 8388608 < (tooLarge.data.length : ℤ) + (([] : List UInt8).length + messageHeadLen) := by
    rw [length_tooLarge]
    decide
  obtain ⟨c', p', hret⟩ := sendMessage_big ho trivial BufPool.bare_hasRoom (fun _ => 0) hbig
  exact ⟨c', p', hret, rolledBack_iff hi ho trivial hret⟩

/-- A pending message of one byte, and then a message that is refused: the pending frame is
not what it was, and neither `do_write` nor `send_message` survives it. -/
theorem rolledBack_fails : ∃ c p c' p',
    TcpConn.new.sendMessage ⟨1, [5]⟩ (fun _ => 0) BufPool.bare = .ok (0, true, c, p) ∧
      c.sendMessage tooLarge (fun _ => 0) p = .ok (-1, false, c', p') ∧
      ¬ RolledBack (coding.frame ⟨1, [5]⟩) c' ∧
      c'.doWrite [some 9] p' = .error .assertFail ∧
      c'.sendMessage ⟨1, [5]⟩ (fun _ => 0) p' = .error .assertFail := by
  have hfirst : (TcpConn.new.sendMessage ⟨1, [5]⟩ (fun _ => 0) BufPool.bare).map
      (fun r => (r.1, r.2.2.2.totalMem)) = .ok (0, 4) := by decide +kernel
  have ho : TcpConn.new.obuf.Holds [] := ReactorBuf.holds_empty
  rcases sendMessage_cases ho trivial ⟨1, [5]⟩ BufPool.bare (fun _ => 0) with
    herr | ⟨c, p, hrej, -⟩ | ⟨obuf, p, hacc, hb, hb0⟩
  · rw [herr] at hfirst; cases hfirst
  · rw [hrej] at hfirst; cases hfirst
  rw [hacc] at hfirst
  have hmem : p.totalMem = 4 := congrArg Prod.snd (Except.ok.inj hfirst)
  have hroom : p.HasRoom := by
    unfold BufPool.HasRoom
    rw [hmem]
    decide
  have hlen : (coding.frame ⟨1, [5]⟩).length = 9 := rfl
  have hfit : (coding.frame ⟨1, [5]⟩).length + messageHeadLen ≤ 8388608 := by decide
  have hne : coding.frame ⟨1, [5]⟩ ≠ [] := by decide
  have hbig : 8388608 < (tooLarge.data.length : ℤ) +
      ((coding.frame ⟨1, [5]⟩).length + messageHeadLen) := by
    rw [length_tooLarge]
    decide
  obtain ⟨c', p', hret⟩ := sendMessage_big (c := { TcpConn.new with obuf := obuf }) hb hb0 hroom
    (fun _ => 0) hbig
  obtain ⟨hlen, hstart⟩ := (refused_of_ret hb hb0 hret).stuck hne hfit
  exact ⟨_, p, c', p', hacc, hret, fun h => hstart h.atStart, doWrite_assert hlen hstart _ _ _,
    sendMessage_assert hstart _ _ _⟩

end TcpConn

end LbRpc
