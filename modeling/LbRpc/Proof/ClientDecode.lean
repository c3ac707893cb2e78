import LbRpc.Reactor.TcpClient
import Mathlib.Algebra.Ring.Int.Defs

/-!
# When the decode loop of a client stays in its buffer

`TCPClient::do_read` pops whatever length a head announces, a negative one included.

* `DecodesSafely`: a run of the loop that ends and keeps the buffer in bounds, with a length
  for the router that is there; `DecodesSafely.decode`: the loop of the model takes this run.
* `decode_safe_iff`: there is such a run exactly for bytes that are whole messages and less
  than a head; `decode_negative_runs_on` is a head that the loop never gets past.
-/

namespace LbRpc

/-- `0 <= head`, `0 <= length` and `head + length <= capacity`. -/
structure IOBuf.InBounds (b : IOBuf) : Prop where
  head : 0 ≤ b.head
  length : 0 ≤ b.length
  fits : b.head + b.length ≤ b.capacity

theorem IOBuf.Holds.inBounds {b : IOBuf} {bs : List UInt8} (h : b.Holds bs) : b.InBounds :=
  ⟨h.head, by rw [h.length]; exact Int.natCast_nonneg _, h.fits⟩

namespace TcpClient

variable {c c' : TcpClient} {bs hd body rest old xs : List UInt8}

/-- The client behind one turn of the decode loop, on the head `hd`. -/
def dispatch (hd : List UInt8) (c : TcpClient) : TcpClient :=
  let head := MsgHead.ofBytes hd
  let ibuf := c.ibuf.pop messageHeadLen
  let call : Call := ⟨head.msgid, head.msglen, Memory.slice ibuf.data ibuf.head head.msglen.toInt.toNat⟩
  { c with ibuf := ibuf.pop head.msglen.toInt, calls := c.calls ++ [call] }

theorem decode_dispatch (fuel : ℕ) (hlen : (messageHeadLen : ℤ) ≤ c.ibuf.length)
    (hpeek : c.ibuf.peek messageHeadLen = .ok hd) : decode (fuel + 1) c = decode fuel (c.dispatch hd) := by
  rw [decode, if_neg (by omega), hpeek]
  rfl

/-- **A run of the decode loop that ends**, in bounds wherever the buffer is used. The
router takes the length as a `uint32_t`. -/
inductive DecodesSafely : TcpClient → TcpClient → Prop
  | done {c : TcpClient} : c.ibuf.InBounds → c.ibuf.length < messageHeadLen → DecodesSafely c c
  | message {c c' : TcpClient} {hd : List UInt8} : c.ibuf.InBounds →
      (messageHeadLen : ℤ) ≤ c.ibuf.length → c.ibuf.peek messageHeadLen = .ok hd →
      (c.ibuf.pop messageHeadLen).InBounds →
      ((MsgHead.ofBytes hd).msglen.toUInt32.toNat : ℤ) ≤ (c.ibuf.pop messageHeadLen).length →
      DecodesSafely (c.dispatch hd) c' → DecodesSafely c c'

/-- The loop takes the run. -/
theorem DecodesSafely.decode (h : DecodesSafely c c') : ∃ fuel, c.decode fuel = .ok c' := by
  induction h with
  | done _ hshort => exact ⟨1, if_pos hshort⟩
  | message _ hlen hpeek _ _ _ ih =>
    obtain ⟨fuel, hfuel⟩ := ih
    exact ⟨fuel + 1, (decode_dispatch fuel hlen hpeek).trans hfuel⟩

/-- **Whole messages**, each with a length that is not negative and all of its body, and
less than a head behind them. -/
inductive WholeMessages : List UInt8 → Prop
  | rest {bs : List UInt8} : bs.length < messageHeadLen → WholeMessages bs
  | message {hd body rest : List UInt8} : hd.length = messageHeadLen →
      (MsgHead.ofBytes hd).msglen.toInt = body.length → WholeMessages rest →
      WholeMessages (hd ++ body ++ rest)

/-- What a turn on a whole message leaves. -/
theorem dispatch_holds (h : c.ibuf.Holds (hd ++ body ++ rest)) (hlen : hd.length = messageHeadLen)
    (hmsg : (MsgHead.ofBytes hd).msglen.toInt = body.length) : (c.dispatch hd).ibuf.Holds rest := by
  rw [List.append_assoc] at h
  have hpop := h.pop
  rw [hlen] at hpop
  show ((c.ibuf.pop messageHeadLen).pop (MsgHead.ofBytes hd).msglen.toInt).Holds rest
  rw [hmsg]
  exact hpop.pop

/-- A length that is small as a `uint32_t` is the same as an `int`. -/
theorem toInt_of_toUInt32 {x : Int32} (h : x.toUInt32.toNat < 2 ^ 31) : x.toInt = x.toUInt32.toNat := by
  have hcond := BitVec.toInt_eq_toNat_cond x.toBitVec
  have hnat : x.toBitVec.toNat = x.toUInt32.toNat := rfl
  rw [hnat, if_pos (by omega)] at hcond
  exact hcond

theorem toUInt32_of_toInt {x : Int32} {n : ℕ} (h : x.toInt = n) : x.toUInt32.toNat = n := by
  have hcond := BitVec.toInt_eq_toNat_cond x.toBitVec
  have hnat : x.toBitVec.toNat = x.toUInt32.toNat := rfl
  have hint : x.toBitVec.toInt = x.toInt := rfl
  have hlt := x.toUInt32.toNat_lt
  rw [hnat, hint, h] at hcond
  split at hcond <;> omega

/-- **Whole messages are decoded in bounds.** -/
theorem safe_of_whole (hbs : WholeMessages bs) : ∀ c : TcpClient, c.ibuf.Holds bs →
    ∃ c', DecodesSafely c c' := by
  induction hbs with
  | rest hshort =>
    intro c h
    have hlen := h.length
    exact ⟨c, .done h.inBounds (by omega)⟩
  | @message hd body rest hlen hmsg _ ih =>
    intro c h
    obtain ⟨c', hc'⟩ := ih (c.dispatch hd) (dispatch_holds h hlen hmsg)
    have htot := h.length
    rw [List.append_assoc] at h
    have hpeek := h.peek
    have hpop := h.pop
    rw [hlen] at hpeek hpop
    have hrest := hpop.length
    rw [List.length_append] at hrest
    refine ⟨c', .message h.inBounds ?_ hpeek hpop.inBounds ?_ hc'⟩
    · rw [List.append_assoc, List.length_append, hlen] at htot
      omega
    · rw [toUInt32_of_toInt hmsg, hrest]
      omega

theorem split_at (bs : List UInt8) {n : ℕ} (h : n ≤ bs.length) : ∃ xs ys, bs = xs ++ ys ∧ xs.length = n :=
  ⟨bs.take n, bs.drop n, (List.take_append_drop n bs).symm, List.length_take_of_le h⟩

/-- **What is decoded in bounds is whole messages.** -/
theorem whole_of_safe (hc : DecodesSafely c c') : ∀ bs, c.ibuf.Holds bs → c.ibuf.capacity < 2 ^ 31 →
    WholeMessages bs := by
  induction hc with
  | done _ hshort =>
    intro bs h _
    have hlen := h.length
    exact .rest (by omega)
  | @message c c' hd hin hlen hpeek _ hmsg _ ih =>
    intro bs h hcap
    have htot := h.length
    obtain ⟨hd', behind, rfl, hhd⟩ := split_at bs (show messageHeadLen ≤ bs.length by omega)
    have hread := h.peek
    rw [hhd, hpeek] at hread
    cases hread
    have hpop := h.pop.length
    rw [hhd] at hpop
    -- the length that the router is given is at most what has come, so it is not negative
    have hfits := hin.fits
    have hstart := hin.head
    rw [List.length_append] at htot
    have hint := toInt_of_toUInt32 (x := (MsgHead.ofBytes hd).msglen) (by omega)
    obtain ⟨body, rest, rfl, hbody⟩ := split_at behind
      (show (MsgHead.ofBytes hd).msglen.toUInt32.toNat ≤ behind.length by omega)
    have hmsg' : (MsgHead.ofBytes hd).msglen.toInt = body.length := by rw [hint, hbody]
    rw [← List.append_assoc] at h ⊢
    exact .message hhd hmsg' (ih rest (dispatch_holds h hhd hmsg') hcap)

/-- **The decode loop is safe exactly on whole messages**: for the bytes `xs` that a `read`
puts behind what was left, in the buffer of the constructor. -/
theorem decode_safe_iff (hold : c.ibuf.Holds old) (h0 : c.ibuf.head = 0) (hcap : c.ibuf.capacity = bufSize)
    (hfit : (old.length : ℤ) + xs.length ≤ bufSize) :
    ∃ ibuf, c.ibuf.append xs = .ok ibuf ∧
      ((∃ fuel c', decode fuel { c with ibuf := ibuf } = .ok c' ∧
          DecodesSafely { c with ibuf := ibuf } c') ↔ WholeMessages (old ++ xs)) := by
  obtain ⟨ibuf, happend, hholds, -, hcap'⟩ := hold.append xs h0 (by rw [hcap]; exact hfit)
  refine ⟨ibuf, happend, fun h => ?_, fun hwhole => ?_⟩
  · obtain ⟨_, c', -, hsafe⟩ := h
    refine whole_of_safe hsafe (old ++ xs) hholds ?_
    show ibuf.capacity < 2 ^ 31
    rw [hcap', hcap]
    decide
  · obtain ⟨c', hsafe⟩ := safe_of_whole hwhole { c with ibuf := ibuf } hholds
    obtain ⟨fuel, hfuel⟩ := hsafe.decode
    exact ⟨fuel, c', hfuel, hsafe⟩

/-- A message without a body is whole. -/
theorem decode_safe_empty :
    let c := new (fun _ => 0) fun _ => 0
    let xs : List UInt8 := [1, 0, 0, 0, 0, 0, 0, 0]
    ∃ ibuf, c.ibuf.append xs = .ok ibuf ∧
      ((∃ fuel c', decode fuel { c with ibuf := ibuf } = .ok c' ∧
          DecodesSafely { c with ibuf := ibuf } c') ↔ WholeMessages ([] ++ xs)) :=
  decode_safe_iff (IOBuf.holds_new (by decide) _) rfl rfl (by decide)

/-- The head of a message of length -8 pops itself back into the buffer. -/
theorem decode_negative_runs_on :
    let xs : List UInt8 := [1, 0, 0, 0, 248, 255, 255, 255]
    let ibuf : IOBuf := ⟨bufSize, 8, 0, Memory.write (fun _ => 0) 0 xs⟩
    let c := new (fun _ => 0) fun _ => 0
    c.ibuf.append xs = .ok ibuf ∧ (∀ fuel, decode fuel { c with ibuf := ibuf } = .error .diverged) ∧
      ¬ ∃ fuel c', decode fuel { c with ibuf := ibuf } = .ok c' ∧ DecodesSafely { c with ibuf := ibuf } c' := by
  intro xs ibuf c
  have hturn : ∀ fuel calls, decode fuel { c with ibuf := ibuf, calls := calls } = .error .diverged := by
    intro fuel
    induction fuel with
    | zero => exact fun _ => rfl
    | succ fuel ih =>
      intro calls
      have hlen : (messageHeadLen : ℤ) ≤ ibuf.length := by decide
      have hpeek : ibuf.peek messageHeadLen = .ok xs := by decide
      -- eight bytes forward for the head, eight back for the body
      have hmsg : (MsgHead.ofBytes xs).msglen.toInt = -8 := by decide
      have hback : (ibuf.pop messageHeadLen).pop (-8) = ibuf := rfl
      rw [decode, if_neg (by dsimp only; omega)]
      dsimp only
      rw [hpeek]
      dsimp only
      rw [hmsg, hback]
      exact ih _
  refine ⟨rfl, fun fuel => hturn fuel [], ?_⟩
  rintro ⟨fuel, c', hok, -⟩
  have hdiv := hturn fuel []
  rw [show decode fuel { c with ibuf := ibuf, calls := [] } = .ok c' from hok] at hdiv
  cases hdiv

end TcpClient

end LbRpc
