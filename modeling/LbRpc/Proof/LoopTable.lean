import LbRpc.Base.Runs
import LbRpc.Reactor.EpollCtl

/-!
# The three copies of the event table

`_io_evs`, `listen_fds` and what the kernel has behind `_epfd`, over runs of the operations
of `EventLoop`.

* `loop_table`: by a kernel that fails only what is out of place, every call of `epoll_ctl`
  is in place, the three agree, no mask is empty and every event has its callback.
* `add_refused`: an `add_io_event` whose call fails leaves table and list as they were exactly
  when it registers again what is registered. While all failures are of that kind the three
  agree; `add_refused_leaves_entry` is a failure of another kind.
-/

namespace LbRpc

open Runs

variable {κ : Type*} {l : EventLoop κ} {fd : Fd} {proc : κ} {mask : EventMask} {refused : Bool}

namespace EventLoop

/-- `Sound`, and no entry has an empty mask. -/
structure Exact (l : EventLoop κ) : Prop extends l.Sound where
  nonzero : ∀ fd ev, l.ioEvs fd = some ev → ev.mask ≠ ⟨false, false⟩

theorem exact_new : (new : EventLoop κ).Exact := ⟨sound_new, fun _ _ h => by cases h⟩

theorem union_ne_zero {m n : EventMask} (hone : n = .inp ∨ n = .out) : m.union n ≠ ⟨false, false⟩ := by
  rcases hone with rfl | rfl <;> simp [EventMask.union, EventMask.inp, EventMask.out]

theorem Exact.addIoEvent (h : l.Exact) (fd : Fd) (proc : κ) (hone : mask = .inp ∨ mask = .out) :
    (l.addIoEvent fd proc mask).Exact := by
  refine ⟨h.toSound.addIoEvent fd proc mask hone, fun d e hd => ?_⟩
  rw [h.addIoEvent_eq] at hd
  dsimp only at hd
  by_cases hdf : d = fd
  · subst hdf
    rw [Function.update_self] at hd
    cases hd
    exact union_ne_zero hone
  · rw [Function.update_of_ne hdf] at hd
    exact h.nonzero d e hd

theorem Exact.delIoEvent (h : l.Exact) (fd : Fd) : (l.delIoEvent fd).Exact :=
  ⟨h.toSound.delIoEvent fd, fun d e hd => h.nonzero d e (delIoEvent_entry hd)⟩

/-- `del_io_event` of a mask deletes the entry rather than keep an empty mask. -/
theorem Exact.delIoEventMask (h : l.Exact) (fd : Fd) (mask : EventMask) :
    (l.delIoEventMask fd mask).Exact := by
  refine ⟨h.toSound.delIoEventMask fd mask, fun d e hd => ?_⟩
  rcases h.agrees.delIoEventMask_cases fd mask with hsame | hall | ⟨ev, -, hleft, hrest⟩
  · rw [hsame] at hd
    exact h.nonzero d e hd
  · rw [hall] at hd
    exact h.nonzero d e (delIoEvent_entry hd)
  · rw [hrest] at hd
    dsimp only at hd
    by_cases hdf : d = fd
    · subst hdf
      rw [Function.update_self] at hd
      cases hd
      exact hleft
    · rw [Function.update_of_ne hdf] at hd
      exact h.nonzero d e hd

/-- When a refused `add_io_event` writes nothing new. -/
theorem addEntry_eq_iff (ev : IOEvent κ) (hev : l.ioEvs fd = some ev) :
    l.addEntry fd proc mask = ev ↔
      ev.mask.union mask = ev.mask ∧ (mask.epollin = true → ev.readCallback = some proc) ∧
        (mask.epollin = false → mask.epollout = true → ev.writeCallback = some proc) := by
  obtain ⟨m, read, write⟩ := ev
  obtain ⟨i, o⟩ := mask
  unfold addEntry withCallback
  rw [hev]
  cases i <;> cases o <;> simp [eq_comm, and_comm]

end EventLoop

namespace LoopOp

/-- A loop as a machine of `Runs`; no operation fails. -/
def step (l : EventLoop κ) (op : LoopOp κ) : Except Empty (EventLoop κ) := .ok (op.apply l)

variable {op : LoopOp κ}

/-! ## A kernel without reasons of its own -/

theorem apply_exact (h : l.Exact) (hplain : op.Plain) : (op.apply l).Exact := by
  cases op with
  | add fd proc mask refused =>
    obtain ⟨rfl, hone⟩ := hplain
    have hadd := h.addIoEvent fd proc hone
    rw [← EventLoop.addIoEventCtl_false] at hadd
    exact hadd
  | del fd => exact h.delIoEvent fd
  | delMask fd mask => exact h.delIoEventMask fd mask

/-- Where the copies agree, every `ADD` and `MOD` is in place. -/
theorem expected_of_agrees (h : l.Agrees) (op : LoopOp κ) : op.Expected l := by
  intro c hc hdel
  cases op with
  | add fd proc mask refused =>
    cases hc
    exact EventLoop.addCall_expected.2 (h.registered fd)
  | del fd =>
    cases hc
    exact absurd rfl hdel
  | delMask fd mask =>
    change l.delMaskCall fd mask = some c at hc
    unfold EventLoop.delMaskCall at hc
    cases hev : l.ioEvs fd with
    | none => rw [hev] at hc; cases hc
    | some ev =>
      rw [hev] at hc
      dsimp only at hc
      split at hc
      · cases hc
        exact absurd rfl hdel
      · cases hc
        have hsome : (l.epoll fd).isSome = true := by rw [← h.registered, hev]; simp
        exact hsome

/-- **Table, list and kernel are copies of one another**, over all runs, and every call
that adds or changes a descriptor is one that the kernel accepts. -/
theorem loop_table (ops : List (LoopOp κ)) (hplain : ∀ op ∈ ops, op.Plain) :
    Always step (fun _ l => l.Exact) EventLoop.new ops ∧
      Along step (fun _ l op => op.Expected l) EventLoop.new ops := by
  have hexact : Always step (fun _ l => l.Exact) EventLoop.new ops := by
    refine always_of_step EventLoop.exact_new fun pre op hpre l _ h => ?_
    have hmem : op ∈ ops := hpre.subset (List.mem_append_right pre (List.mem_singleton_self op))
    exact ⟨op.apply l, rfl, apply_exact h (hplain op hmem)⟩
  refine ⟨hexact, fun pre op hpre l hl => ?_⟩
  obtain ⟨l', hl', h⟩ := hexact pre ((List.prefix_append pre [op]).trans hpre)
  rw [hl] at hl'
  cases hl'
  exact expected_of_agrees h.agrees op

/-- A descriptor is read, then also written, then only written, then gone. -/
theorem loop_table_both :
    let ops : List (LoopOp Unit) :=
      [.add 5 () .inp false, .add 5 () .out false, .delMask 5 .inp, .del 5, .delMask 5 .out]
    Always step (fun _ l => l.Exact) EventLoop.new ops ∧
      Along step (fun _ l op => op.Expected l) EventLoop.new ops := by
  refine loop_table _ ?_
  simp [Plain]

/-! ## A kernel that refuses -/

/-- What a failed `add_io_event` has to leave: table and list as they were, so that they
agree with the kernel and the next `add_io_event` of any descriptor is in place. -/
structure Restored (l l' : EventLoop κ) : Prop where
  ioEvs : l'.ioEvs = l.ioEvs
  listenFds : l'.listenFds = l.listenFds
  agrees : l'.Agrees
  expected : ∀ fd mask, (l'.addCall fd mask).expected l'.epoll = true

/-- **A failure leaves the table alone exactly when there was nothing to write.** -/
theorem ioEvs_eq_iff (hfail : op.AddFails l) : (op.apply l).ioEvs = l.ioEvs ↔ op.Again l := by
  cases op with
  | del fd => cases hfail
  | delMask fd mask => cases hfail
  | add fd proc mask refused =>
    have happly := EventLoop.addIoEventCtl_fail proc hfail
    show (l.addIoEventCtl refused fd proc mask).ioEvs = l.ioEvs ↔ _
    rw [happly]
    dsimp only
    rw [Function.update_eq_self_iff]
    constructor
    · intro hsame
      exact ⟨_, hsame.symm, (EventLoop.addEntry_eq_iff _ hsame.symm).1 rfl⟩
    · rintro ⟨ev, hev, hold⟩
      rw [hev, (EventLoop.addEntry_eq_iff ev hev).2 hold]

/-- A call that fails reaches neither list nor kernel. -/
theorem apply_fail (hfail : op.AddFails l) :
    (op.apply l).listenFds = l.listenFds ∧ (op.apply l).epoll = l.epoll := by
  cases op with
  | del fd => cases hfail
  | delMask fd mask => cases hfail
  | add fd proc mask refused =>
    have happly := EventLoop.addIoEventCtl_fail proc hfail
    show (l.addIoEventCtl refused fd proc mask).listenFds = _ ∧ (l.addIoEventCtl refused fd proc mask).epoll = _
    rw [happly]
    exact ⟨rfl, rfl⟩

/-- The copies go on agreeing while the failures write nothing new. -/
theorem apply_agrees (h : l.Agrees) (hagain : op.AddFails l → op.Again l) : (op.apply l).Agrees := by
  by_cases hfail : op.AddFails l
  · have htable := (ioEvs_eq_iff hfail).2 (hagain hfail)
    obtain ⟨hlist, hkernel⟩ := apply_fail hfail
    refine ⟨fun d => ?_, fun d => ?_⟩
    · rw [hkernel, htable]
      exact h.epoll d
    · rw [hlist, htable]
      exact h.listenFds d
  · cases op with
    | add fd proc mask refused =>
      have hadd := EventLoop.addIoEventCtl_ok proc hfail
      show (l.addIoEventCtl refused fd proc mask).Agrees
      rw [hadd]
      exact h.update fd _
    | del fd => exact h.delIoEvent fd
    | delMask fd mask => exact h.delIoEventMask fd mask

/-- **Exactly the failures that register again what is registered leave the loop as it
was**, over all runs and every kernel. -/
theorem add_refused (ops : List (LoopOp κ)) :
    Along step (fun _ l op => op.AddFails l → Restored l (op.apply l)) EventLoop.new ops ↔
      Along step (fun _ l op => op.AddFails l → op.Again l) EventLoop.new ops := by
  constructor
  · intro h pre op hpre l hl hfail
    exact (ioEvs_eq_iff hfail).1 (h pre op hpre l hl hfail).ioEvs
  · intro h pre op hpre l hl hfail
    have hagrees : Throughout step (fun _ l => EventLoop.Agrees l) EventLoop.new ops := by
      refine throughout_of_along EventLoop.sound_new.agrees (fun _ op l l' hl hagain hl' => ?_) h
      cases hl'
      exact apply_agrees hl hagain
    have hpre' : pre <+: ops := (List.prefix_append pre [op]).trans hpre
    have hafter := apply_agrees (hagrees pre hpre' l hl) (h pre op hpre l hl)
    exact
      { ioEvs := (ioEvs_eq_iff hfail).2 (h pre op hpre l hl hfail)
        listenFds := (apply_fail hfail).1
        agrees := hafter
        expected := fun fd _ => EventLoop.addCall_expected.2 (hafter.registered fd) }

/-- A new descriptor that the kernel does not take: its entry stays behind, and the next
`add_io_event` asks for an `EPOLL_CTL_MOD` of a descriptor that is not registered. -/
theorem add_refused_leaves_entry :
    let op : LoopOp Unit := .add 5 () .inp true
    let l' := op.apply EventLoop.new
    op.AddFails EventLoop.new ∧ ¬ Restored EventLoop.new l' ∧ l'.addCall 5 .inp = ⟨.mod, 5, .inp⟩ ∧
      l'.epoll 5 = none := by
  have hfail : (LoopOp.add 5 () .inp true).AddFails EventLoop.new := rfl
  refine ⟨hfail, fun h => ?_, ?_, ?_⟩
  · have hentry := congrFun h.ioEvs 5
    cases hentry
  · decide
  · decide

end LoopOp

end LbRpc
