import LbRpc.Proof.RollBack
import LbRpc.Reactor.ConnLoop

/-!
# Pending output always has its write event

`send_message` asks for `EPOLLOUT` when it finds the output buffer empty, `do_write` gives
it up when it leaves the buffer empty.

* `EventLoop.Watches`: what a loop knows of one descriptor, and how the operations change it.
* `TcpConn.Pending.send`, `TcpConn.Pending.write`: what the two functions leave pending.
* `ConnLoop.step_watched`: one step of a connection keeps its mask and its buffer in step.
* `write_event`: between two callbacks of a live connection the loop waits for `EPOLLOUT`
  exactly if output is pending. No `send_message` has to succeed for that.
-/

namespace LbRpc

open Runs

variable {κ : Type*} {rd wt : κ} {fd : Fd} {l : EventLoop κ} {m : EventMask}

/-! ## One descriptor of a loop -/

namespace EventLoop

/-- The loop waits for the events `m` of a descriptor and has these callbacks for them. -/
structure Watches (fd : Fd) (rd wt : κ) (m : EventMask) (l : EventLoop κ) : Prop where
  epoll : l.epoll fd = (l.ioEvs fd).map IOEvent.mask
  mask : ((l.ioEvs fd).map IOEvent.mask).getD ⟨false, false⟩ = m
  read : m.epollin = true → ∃ ev, l.ioEvs fd = some ev ∧ ev.readCallback = some rd
  write : m.epollout = true → ∃ ev, l.ioEvs fd = some ev ∧ ev.writeCallback = some wt

/-- A descriptor that the loop does not have. -/
theorem watches_none (hentry : l.ioEvs fd = none) (hkernel : l.epoll fd = none) :
    l.Watches fd rd wt ⟨false, false⟩ := by
  refine ⟨?_, ?_, fun hin => ?_, fun hout => ?_⟩
  · rw [hentry, hkernel]
    rfl
  · rw [hentry]
    rfl
  · cases hin
  · cases hout

theorem Watches.registered (h : l.Watches fd rd wt m) : (l.ioEvs fd).isSome = (l.epoll fd).isSome := by
  rw [h.epoll, Option.isSome_map]

/-- The entry that `add_io_event` leaves. -/
theorem Watches.add_entry (h : l.Watches fd rd wt m) (proc : κ) (n : EventMask) :
    (l.addIoEvent fd proc n).ioEvs fd = some (l.addEntry fd proc n) ∧
      (l.addIoEvent fd proc n).epoll fd = some (l.addEntry fd proc n).mask ∧
      (l.addEntry fd proc n).mask = m.union n := by
  have hadd : l.addIoEvent fd proc n = _ := if_pos h.registered
  rw [hadd]
  refine ⟨Function.update_self .., Function.update_self .., ?_⟩
  have hmask := h.mask
  unfold addEntry
  cases hev : l.ioEvs fd with
  | none =>
    rw [hev] at hmask
    rw [← hmask]
    rfl
  | some ev =>
    rw [hev] at hmask
    rw [← hmask]
    rfl

theorem Watches.addIn (h : l.Watches fd rd wt m) :
    (l.addIoEvent fd rd .inp).Watches fd rd wt ⟨true, m.epollout⟩ := by
  obtain ⟨hentry, hkernel, hmask⟩ := h.add_entry rd .inp
  have hunion : m.union .inp = ⟨true, m.epollout⟩ := by
    unfold EventMask.union EventMask.inp
    rw [Bool.or_true, Bool.or_false]
  rw [hunion] at hmask
  refine ⟨?_, ?_, fun _ => ⟨_, hentry, rfl⟩, fun hout => ⟨_, hentry, ?_⟩⟩
  · rw [hkernel, hentry]
    rfl
  · rw [hentry]
    exact hmask
  · obtain ⟨ev, hev, hwrite⟩ := h.write hout
    unfold addEntry
    rw [hev]
    exact hwrite

theorem Watches.addOut (h : l.Watches fd rd wt m) :
    (l.addIoEvent fd wt .out).Watches fd rd wt ⟨m.epollin, true⟩ := by
  obtain ⟨hentry, hkernel, hmask⟩ := h.add_entry wt .out
  have hunion : m.union .out = ⟨m.epollin, true⟩ := by
    unfold EventMask.union EventMask.out
    rw [Bool.or_true, Bool.or_false]
  rw [hunion] at hmask
  refine ⟨?_, ?_, fun hin => ⟨_, hentry, ?_⟩, fun _ => ⟨_, hentry, rfl⟩⟩
  · rw [hkernel, hentry]
    rfl
  · rw [hentry]
    exact hmask
  · obtain ⟨ev, hev, hread⟩ := h.read hin
    unfold addEntry
    rw [hev]
    exact hread

/-- Without its write event a descriptor that is read stays. -/
theorem Watches.delOut {out : Bool} (h : l.Watches fd rd wt ⟨true, out⟩) :
    (l.delIoEventMask fd .out).Watches fd rd wt ⟨true, false⟩ := by
  obtain ⟨ev, hev, hread⟩ := h.read rfl
  have hmask := h.mask
  rw [hev] at hmask
  have hdiff : ev.mask.diff .out = ⟨true, false⟩ := by
    have hm : ev.mask = ⟨true, out⟩ := hmask
    rw [hm]
    unfold EventMask.diff EventMask.out
    cases out <;> rfl
  have hsome : (l.epoll fd).isSome = true := by
    rw [h.epoll, hev]
    rfl
  have hdel : l.delIoEventMask fd .out =
      { l with
        ioEvs := Function.update l.ioEvs fd (some { ev with mask := ⟨true, false⟩ })
        epoll := Function.update l.epoll fd (some ⟨true, false⟩) } := by
    unfold EventLoop.delIoEventMask
    rw [hev]
    dsimp only
    rw [hdiff, if_neg (by decide), if_pos hsome]
  rw [hdel]
  refine ⟨?_, ?_, fun _ => ⟨_, Function.update_self .., hread⟩, fun hout => by cases hout⟩
  · dsimp only
    rw [Function.update_self, Function.update_self]
    rfl
  · dsimp only
    rw [Function.update_self]
    rfl

end EventLoop

/-- An operation leaves the other descriptors alone. -/
theorem LoopOp.apply_other (op : LoopOp κ) (hfd : op.fd ≠ fd) :
    (op.apply l).ioEvs fd = l.ioEvs fd ∧ (op.apply l).epoll fd = l.epoll fd := by
  have hne : fd ≠ op.fd := fun h => hfd h.symm
  have hdel : ∀ d : Fd, fd ≠ d → (l.delIoEvent d).ioEvs fd = l.ioEvs fd ∧ (l.delIoEvent d).epoll fd = l.epoll fd :=
    fun d hd => ⟨Function.update_of_ne hd _ _, Function.update_of_ne hd _ _⟩
  cases op with
  | add d proc mask refused =>
    show (l.addIoEventCtl refused d proc mask).ioEvs fd = _ ∧ (l.addIoEventCtl refused d proc mask).epoll fd = _
    by_cases hctl : epollCtl refused (l.addCall d mask) l.epoll = none
    · rw [EventLoop.addIoEventCtl_fail proc hctl]
      exact ⟨Function.update_of_ne hne _ _, rfl⟩
    · rw [EventLoop.addIoEventCtl_ok proc hctl]
      exact ⟨Function.update_of_ne hne _ _, Function.update_of_ne hne _ _⟩
  | del d => exact hdel d hne
  | delMask d mask =>
    show (l.delIoEventMask d mask).ioEvs fd = _ ∧ (l.delIoEventMask d mask).epoll fd = _
    unfold EventLoop.delIoEventMask
    cases l.ioEvs d with
    | none => exact ⟨rfl, rfl⟩
    | some ev =>
      dsimp only
      split
      · exact hdel d hne
      · refine ⟨Function.update_of_ne hne _ _, ?_⟩
        dsimp only
        split
        · exact Function.update_of_ne hne _ _
        · rfl

theorem EventLoop.Watches.other (h : l.Watches fd rd wt m) (op : LoopOp κ) (hfd : op.fd ≠ fd) :
    (op.apply l).Watches fd rd wt m := by
  obtain ⟨hentry, hkernel⟩ := op.apply_other (l := l) hfd
  refine ⟨?_, ?_, ?_, ?_⟩
  · rw [hentry, hkernel]
    exact h.epoll
  · rw [hentry]
    exact h.mask
  · rw [hentry]
    exact h.read
  · rw [hentry]
    exact h.write

/-! ## What the calls leave in the output buffer -/

namespace TcpConn

variable {c c' : TcpConn} {p p' : BufPool} {os : List UInt8}

theorem cleanConn_closed (h : c.cleanConn p = .ok (c', p')) : c'.closed = true := by
  unfold cleanConn at h
  split at h
  · cases h
  · split at h
    · cases h
    · cases h
      rfl

theorem decode_keeps (fuel : ℕ) : ∀ (c : TcpConn) (p : BufPool), c.closed = false →
    c.decode fuel p = .ok (c', p') → c'.closed = true ∨ (c'.closed = false ∧ c'.obuf = c.obuf) := by
  induction fuel with
  | zero => intro c p _ h; cases h
  | succ fuel ih =>
    intro c p hopen h
    unfold decode at h
    split at h
    · cases h
      exact Or.inr ⟨hopen, rfl⟩
    · split at h
      · cases h
      · dsimp only at h
        split at h
        · exact Or.inl (cleanConn_closed h)
        · split at h
          · cases h
            exact Or.inr ⟨hopen, rfl⟩
          · split at h
            · cases h
            · split at h
              · cases h
              · have hkeep := ih _ _ (by exact hopen) h
                exact hkeep

/-- **`do_read` leaves the output buffer**, or closes the connection. -/
theorem doRead_keeps {fionread : Option ℤ} {got : Option (List UInt8)} {junk : ℤ → UInt8}
    (hopen : c.closed = false) (h : c.doRead fionread got junk p = .ok (c', p')) :
    c'.closed = true ∨ (c'.closed = false ∧ c'.obuf = c.obuf) := by
  unfold doRead at h
  split at h
  · cases h
  · split at h
    · exact Or.inl (cleanConn_closed h)
    · split at h
      · cases h
      · rename_i hdecode
        split at h
        · cases h
        · cases h
          have hkeep := decode_keeps _ _ _ (by exact hopen) hdecode
          exact hkeep

/-- The bytes that are pending; where the buffer does not start at 0 there are some. -/
structure Pending (os : List UInt8) (c : TcpConn) : Prop where
  holds : c.obuf.Holds os
  start : c.obuf.AtStart ∨ os ≠ []

theorem pending_new : Pending [] TcpConn.new := ⟨ReactorBuf.holds_empty, Or.inl trivial⟩

theorem Pending.length_pos (h : Pending os c) : 0 < c.obuf.length ↔ os ≠ [] := by
  rw [h.holds.length]
  rw [← List.length_pos_iff]
  omega

/-- A refused message leaves as much pending as there was: at the end of the roll-back the
buffer holds the last bytes instead of the first, or has gone back to the pool. -/
theorem Pending.refused {m : Message} (href : Refused os m c c') (h0 : c.obuf.AtStart)
    (ho : c.obuf.Holds os) : ∃ os', Pending os' c' ∧ (os' = [] ↔ os = []) := by
  cases href with
  | head => exact ⟨os, ⟨ho, Or.inl h0⟩, Iff.rfl⟩
  | @body obuf ob p p' hlen hb hb0 hpop =>
    obtain ⟨ob', p'', hpop', hholds, htight⟩ := pop_head m hb p
    rw [hpop] at hpop'
    obtain ⟨rfl, -⟩ := Prod.mk.inj (Except.ok.inj hpop')
    have hsize : ((os ++ (MsgHead.ofMessage m).toBytes).drop messageHeadLen).length = os.length := by
      rw [List.length_drop, List.length_append, MsgHead.length_toBytes]
      omega
    have hnil : (os ++ (MsgHead.ofMessage m).toBytes).drop messageHeadLen = [] ↔ os = [] := by
      rw [← List.length_eq_zero_iff, hsize, List.length_eq_zero_iff]
    refine ⟨_, ⟨hholds, ?_⟩, hnil⟩
    by_cases hos : os = []
    · have hempty := hnil.2 hos
      rw [hempty] at hholds
      exact Or.inl (ReactorBuf.atStart_of_none (htight.buf_none hholds))
    · exact Or.inr fun h => hos (hnil.1 h)

/-- **What a `send_message` leaves pending**, and when it asks for `EPOLLOUT`. -/
theorem Pending.send (h : Pending os c) {m : Message} {junk : ℤ → UInt8} {ret : ℤ} {add : Bool}
    (hsend : c.sendMessage m junk p = .ok (ret, add, c', p')) :
    c'.closed = c.closed ∧ ∃ os', Pending os' c' ∧
      ((add = true ∧ os' ≠ []) ∨ (add = false ∧ (os' = [] ↔ os = []))) := by
  by_cases h0 : c.obuf.AtStart
  · rcases sendMessage_cases h.holds h0 m p junk with herr | ⟨_, q, hrej, href⟩ | ⟨obuf, q, hacc, hb, hb0⟩
    · rw [herr] at hsend
      cases hsend
    · rw [hrej] at hsend
      cases hsend
      obtain ⟨os', hpend, hiff⟩ := Pending.refused href h0 h.holds
      have hclosed : c'.closed = c.closed := by cases href <;> rfl
      exact ⟨hclosed, os', hpend, Or.inr ⟨rfl, hiff⟩⟩
    · rw [hacc] at hsend
      cases hsend
      have hne : os ++ coding.frame m ≠ [] := by
        intro hnil
        have hlen := congrArg List.length (List.append_eq_nil_iff.1 hnil).2
        simp [coding, Framing.Coding.frame, messageHeadLen] at hlen
      refine ⟨rfl, _, ⟨hb, Or.inl hb0⟩, ?_⟩
      by_cases hz : c.obuf.length = 0
      · exact Or.inl ⟨decide_eq_true hz, hne⟩
      · refine Or.inr ⟨decide_eq_false hz, fun hnil => absurd hnil hne, fun hnil => ?_⟩
        rw [h.holds.length, hnil] at hz
        exact absurd rfl hz
  · rw [sendMessage_assert h0] at hsend
    cases hsend

/-- **What a `do_write` leaves pending**, and when it gives `EPOLLOUT` up. -/
theorem Pending.write (h : Pending os c) {rooms : List (Option ℕ)} {written : List UInt8} {del : Bool}
    (hwrite : c.doWrite rooms p = .ok (written, del, c', p')) :
    c'.closed = true ∨ (c'.closed = c.closed ∧ ∃ os', Pending os' c' ∧ (del = true ↔ os' = []) ∧
      (os = [] → os' = [])) := by
  by_cases h0 : c.obuf.AtStart
  · obtain ⟨e, taken, obuf, rest, hrun, hos, hb, hb0, -⟩ := writeLoop_cases rooms os c.obuf h.holds h0
    unfold doWrite at hwrite
    rw [hrun] at hwrite
    cases e with
    | failed =>
      dsimp only at hwrite
      split at hwrite
      · cases hwrite
      · rename_i hclean
        cases hwrite
        exact Or.inl (cleanConn_closed hclean)
    | done =>
      cases hwrite
      refine Or.inr ⟨rfl, rest, ⟨hb, Or.inl hb0⟩, ?_, fun hnil => ?_⟩
      · rw [decide_eq_true_iff, hb.length, ← List.length_eq_zero_iff]
        omega
      · rw [hnil] at hos
        exact (List.append_eq_nil_iff.1 hos.symm).2
  · -- only a loop that writes nothing gets through
    have hne : os ≠ [] := h.start.resolve_left h0
    have hlen : c.obuf.length ≠ 0 := by
      have hpos := h.length_pos.2 hne
      omega
    cases rooms with
    | cons room rooms =>
      rw [doWrite_assert hlen h0] at hwrite
      cases hwrite
    | nil =>
      cases hwrite
      refine Or.inr ⟨rfl, os, ⟨h.holds, Or.inr hne⟩, ?_, fun hnil => hnil⟩
      rw [decide_eq_true_iff]
      exact ⟨fun hz => absurd hz hlen, fun hnil => absurd hnil hne⟩

end TcpConn

/-! ## The connection on its loop -/

namespace ConnLoop

variable {s s' : ConnLoop κ} {e : Event κ}

/-- **The write event stands exactly if output is pending**, in the table and at the kernel,
and it leads to `conn_wt_callback`. -/
structure WriteEvent (wt : κ) (s : ConnLoop κ) : Prop where
  entry : (∃ ev, s.loop.ioEvs s.connfd = some ev ∧ ev.mask.epollout = true) ↔ 0 < s.conn.obuf.length
  fires : s.loop.fires s.connfd .epollout = true ↔ 0 < s.conn.obuf.length
  callback : 0 < s.conn.obuf.length → s.loop.callback s.connfd .epollout = .ok (some wt)

/-- The invariant of a connection that is not closed. -/
def Watched (rd wt : κ) (s : ConnLoop κ) : Prop :=
  ∃ os, s.conn.Pending os ∧ s.loop.Watches s.connfd rd wt ⟨s.started, decide (os ≠ [])⟩

theorem Watched.writeEvent (h : s.Watched rd wt) : s.WriteEvent wt := by
  obtain ⟨os, hpend, hwatch⟩ := h
  have hpos := hpend.length_pos
  have hmask := hwatch.mask
  have hepoll := hwatch.epoll
  have hout : (∃ ev, s.loop.ioEvs s.connfd = some ev ∧ ev.mask.epollout = true) ↔ os ≠ [] := by
    cases hev : s.loop.ioEvs s.connfd with
    | none =>
      rw [hev] at hmask
      have hos : decide (os ≠ []) = false := (congrArg EventMask.epollout hmask).symm
      simpa using hos
    | some ev =>
      rw [hev] at hmask
      have hos : ev.mask.epollout = decide (os ≠ []) := congrArg EventMask.epollout hmask
      simp [hos]
  have hfires : s.loop.fires s.connfd .epollout = true ↔
      ∃ ev, s.loop.ioEvs s.connfd = some ev ∧ ev.mask.epollout = true := by
    unfold EventLoop.fires
    rw [hepoll]
    cases s.loop.ioEvs s.connfd <;> simp
  refine ⟨hout.trans hpos.symm, (hfires.trans hout).trans hpos.symm, fun hlen => ?_⟩
  obtain ⟨ev, hev, hwrite⟩ := hwatch.write (decide_eq_true (hpos.1 hlen))
  unfold EventLoop.callback
  rw [hev]
  dsimp only
  rw [hwrite]

/-- What is left of a connection, unless it is closed. -/
theorem settle_open {c : TcpConn} (loop : EventLoop κ) (hopen : (s.settle c loop).conn.closed = false) :
    s.settle c loop = { s with conn := c, loop := loop } := by
  unfold settle at hopen ⊢
  by_cases hc : c.closed = true
  · rw [if_pos hc] at hopen
    have hclosed : c.closed = false := hopen
    rw [hc] at hclosed
    cases hclosed
  · exact if_neg hc

theorem watched_send {msg : Message} {junk : ℤ → UInt8} {p : BufPool} (h : s.Watched rd wt)
    (hstep : act rd wt s (.send msg junk p) = .ok s') :
    s'.Watched rd wt := by
  obtain ⟨os, hpend, hwatch⟩ := h
  simp only [act] at hstep
  split at hstep
  · cases hstep
  · rename_i hsend
    cases hstep
    obtain ⟨-, os', hpend', hadd | hadd⟩ := hpend.send hsend
    · obtain ⟨rfl, hne⟩ := hadd
      have hmask : (⟨s.started, decide (os' ≠ [])⟩ : EventMask) = ⟨s.started, true⟩ := by
        rw [decide_eq_true hne]
      refine ⟨os', hpend', ?_⟩
      dsimp only
      rw [hmask, if_pos rfl]
      exact hwatch.addOut
    · obtain ⟨rfl, hiff⟩ := hadd
      have hmask : (⟨s.started, decide (os' ≠ [])⟩ : EventMask) = ⟨s.started, decide (os ≠ [])⟩ := by
        rw [decide_eq_decide.2 (not_congr hiff)]
      refine ⟨os', hpend', ?_⟩
      dsimp only
      rw [hmask, if_neg (by decide)]
      exact hwatch

theorem watched_start (h : s.Watched rd wt) (hstep : act rd wt s .start = .ok s') : s'.Watched rd wt := by
  obtain ⟨os, hpend, hwatch⟩ := h
  simp only [act] at hstep
  split at hstep
  · cases hstep
    exact ⟨os, hpend, hwatch⟩
  · cases hstep
    exact ⟨os, hpend, hwatch.addIn⟩

theorem watched_read {fionread : Option ℤ} {got : Option (List UInt8)} {junk : ℤ → UInt8} {p : BufPool}
    (h : s.Watched rd wt) (hopen : s.conn.closed = false)
    (hstep : act rd wt s (.read fionread got junk p) = .ok s') (hopen' : s'.conn.closed = false) :
    s'.Watched rd wt := by
  obtain ⟨os, hpend, hwatch⟩ := h
  simp only [act] at hstep
  split at hstep
  · split at hstep
    · cases hstep
    · rename_i c p' hread
      cases hstep
      have hleft := settle_open s.loop hopen'
      rw [hleft] at hopen' ⊢
      rcases TcpConn.doRead_keeps hopen hread with hclosed | ⟨-, hobuf⟩
      · rw [hopen'] at hclosed
        cases hclosed
      · refine ⟨os, ⟨?_, ?_⟩, hwatch⟩
        · show c.obuf.Holds os
          rw [hobuf]
          exact hpend.holds
        · show c.obuf.AtStart ∨ os ≠ []
          rw [hobuf]
          exact hpend.start
  · cases hstep
    exact ⟨os, hpend, hwatch⟩

theorem watched_write {rooms : List (Option ℕ)} {p : BufPool} (h : s.Watched rd wt)
    (hstep : act rd wt s (.write rooms p) = .ok s') (hopen' : s'.conn.closed = false) : s'.Watched rd wt := by
  obtain ⟨os, hpend, hwatch⟩ := h
  simp only [act] at hstep
  split at hstep
  · rename_i hstarted
    split at hstep
    · cases hstep
    · rename_i written del c p' hwrite
      cases hstep
      have hleft := settle_open _ hopen'
      rw [hleft] at hopen' ⊢
      rcases hpend.write hwrite with hclosed | ⟨-, os', hpend', hdel, hnil⟩
      · rw [hopen'] at hclosed
        cases hclosed
      · refine ⟨os', hpend', ?_⟩
        dsimp only
        rw [hstarted] at hwatch ⊢
        by_cases hd : del = true
        · have hmask : decide (os' ≠ []) = false := by simpa using hdel.1 hd
          rw [hmask, if_pos hd]
          exact hwatch.delOut
        · have hne : os' ≠ [] := fun h => hd (hdel.2 h)
          have hos : os ≠ [] := fun h => hne (hnil h)
          rw [if_neg hd, decide_eq_true hne]
          rw [decide_eq_true hos] at hwatch
          exact hwatch
  · cases hstep
    exact ⟨os, hpend, hwatch⟩

theorem watched_other {op : LoopOp κ} (h : s.Watched rd wt)
    (hstep : act rd wt s (.other op) = .ok s') : s'.Watched rd wt := by
  obtain ⟨os, hpend, hwatch⟩ := h
  simp only [act] at hstep
  cases hstep
  split
  · exact ⟨os, hpend, hwatch⟩
  · rename_i hfd
    exact ⟨os, hpend, hwatch.other op hfd⟩

/-- **One step of a connection**, whichever it is. -/
theorem step_watched (h : s.conn.closed = false → s.Watched rd wt) (hstep : step rd wt s e = .ok s')
    (hopen' : s'.conn.closed = false) : s'.Watched rd wt := by
  unfold step at hstep
  by_cases hclosed : s.conn.closed = true
  · rw [if_pos hclosed] at hstep
    cases hstep
    rw [hclosed] at hopen'
    cases hopen'
  · rw [if_neg hclosed] at hstep
    have hopen : s.conn.closed = false := Bool.eq_false_iff.2 hclosed
    have hw := h hopen
    cases e with
    | send msg junk p => exact watched_send hw hstep
    | start => exact watched_start hw hstep
    | read fionread got junk p => exact watched_read hw hopen hstep hopen'
    | write rooms p => exact watched_write hw hstep hopen'
    | other op => exact watched_other hw hstep

/-- **Between two callbacks the loop waits for the write event exactly if output is
pending**, for every connection that was accepted with a new descriptor, in every run. -/
theorem write_event (rd wt : κ) (connfd : Fd) (loop : EventLoop κ) (hentry : loop.ioEvs connfd = none)
    (hkernel : loop.epoll connfd = none) (es : List (Event κ)) :
    Throughout (step rd wt) (fun _ s => s.conn.closed = false → s.WriteEvent wt) (construct connfd loop) es := by
  intro pre _ s hs hopen
  have hstart : (construct connfd loop).conn.closed = false → (construct connfd loop).Watched rd wt :=
    fun _ => ⟨[], TcpConn.pending_new, EventLoop.watches_none hentry hkernel⟩
  have hinv : s.conn.closed = false → s.Watched rd wt :=
    run_inv (I := fun s : ConnLoop κ => s.conn.closed = false → s.Watched rd wt)
      (fun _ _ _ h hstep hopen' => step_watched h hstep hopen') hstart hs
  exact (hinv hopen).writeEvent

/-- The hook sends a message, and the write event comes twice before all of it is gone. -/
theorem write_event_hook :
    let es : List (Event Bool) :=
      [.send ⟨1, [5]⟩ (fun _ => 0) .bare, .start, .write [some 3, some 0] .bare, .write [some 100] .bare]
    Throughout (step false true) (fun _ s => s.conn.closed = false → s.WriteEvent true)
      (construct 7 EventLoop.new) es :=
  write_event false true 7 EventLoop.new rfl rfl _

end ConnLoop

end LbRpc
