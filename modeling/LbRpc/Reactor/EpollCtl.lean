import LbRpc.Reactor.EventLoop

/-!
# The calls of `epoll_ctl`

Which call each operation of `EventLoop` makes, and what a failure leaves behind. The
kernel fails an `EPOLL_CTL_ADD` of a descriptor that is registered and an `EPOLL_CTL_MOD`
or `EPOLL_CTL_DEL` of one that is not; an `EPOLL_CTL_ADD` or `EPOLL_CTL_MOD` of
`add_io_event` can fail for any other reason as well (`EBADF`, `EPERM`, `ENOMEM`, `ENOSPC`).

* `EventLoop.addIoEventCtl`: `add_io_event` with the outcome of its call;
  `addIoEventCtl_false` says that `addIoEvent` is the case where the kernel has no reason of
  its own to fail.
* `LoopOp.call`: the call that an operation makes; `apply_epoll`: these calls are all that
  the kernel sees.
-/

namespace LbRpc

/-- The `op` of `epoll_ctl`. -/
inductive EpollOp
  | add
  | mod
  | del
  deriving DecidableEq, Repr

/-- A call of `epoll_ctl`; `EPOLL_CTL_DEL` is given no mask. -/
structure EpollCall where
  op : EpollOp
  fd : Fd
  mask : EventMask
  deriving DecidableEq, Repr

namespace EpollCall

/-- What the kernel expects of a call. -/
def expected (c : EpollCall) (k : Fd → Option EventMask) : Bool :=
  match c.op with
  | .add => (k c.fd).isNone
  | .mod => (k c.fd).isSome
  | .del => (k c.fd).isSome

/-- What is registered after a call that succeeds. -/
def registers (c : EpollCall) (k : Fd → Option EventMask) : Fd → Option EventMask :=
  match c.op with
  | .add => Function.update k c.fd (some c.mask)
  | .mod => Function.update k c.fd (some c.mask)
  | .del => Function.update k c.fd none

end EpollCall

/-- `epoll_ctl`: `none` is -1. `refused` is a failure for a reason of the kernel's own. -/
def epollCtl (refused : Bool) (c : EpollCall) (k : Fd → Option EventMask) :
    Option (Fd → Option EventMask) :=
  if !refused && c.expected k then some (c.registers k) else none

namespace EventLoop

variable {κ : Type*} {l : EventLoop κ} {fd : Fd} {proc : κ} {mask : EventMask}

/-- The entry that `add_io_event` puts into `_io_evs`. -/
def addEntry (fd : Fd) (proc : κ) (mask : EventMask) (l : EventLoop κ) : IOEvent κ :=
  let old := (l.ioEvs fd).getD ⟨⟨false, false⟩, none, none⟩
  { withCallback proc mask old with mask := old.mask.union mask }

/-- The `op` and `final_mask` of `add_io_event`. -/
def addCall (fd : Fd) (mask : EventMask) (l : EventLoop κ) : EpollCall :=
  match l.ioEvs fd with
  | none => ⟨.add, fd, mask⟩
  | some ev => ⟨.mod, fd, ev.mask.union mask⟩

/-- `EventLoop::add_io_event`, whose `epoll_ctl` the kernel may refuse. -/
def addIoEventCtl (refused : Bool) (fd : Fd) (proc : κ) (mask : EventMask) (l : EventLoop κ) :
    EventLoop κ :=
  let ioEvs := Function.update l.ioEvs fd (some (l.addEntry fd proc mask))
  match epollCtl refused (l.addCall fd mask) l.epoll with
  | none => { l with ioEvs }
  | some epoll => { ioEvs, listenFds := insert fd l.listenFds, epoll }

@[simp] theorem addCall_fd : (l.addCall fd mask).fd = fd := by
  unfold addCall
  split <;> rfl

theorem addCall_mask : (l.addCall fd mask).mask = (l.addEntry fd proc mask).mask := by
  unfold addCall addEntry
  cases l.ioEvs fd with
  | none => simp [EventMask.union]
  | some ev => rfl

/-- The kernel expects the call when table and kernel both know the descriptor, or neither. -/
theorem addCall_expected :
    (l.addCall fd mask).expected l.epoll = true ↔ (l.ioEvs fd).isSome = (l.epoll fd).isSome := by
  unfold addCall EpollCall.expected
  cases l.ioEvs fd <;> cases l.epoll fd <;> simp

theorem addCall_registers :
    (l.addCall fd mask).registers l.epoll =
      Function.update l.epoll fd (some (l.addEntry fd proc mask).mask) := by
  rw [← addCall_mask]
  unfold addCall EpollCall.registers
  cases l.ioEvs fd <;> rfl

/-- What a call that fails leaves: the entry alone. -/
theorem addIoEventCtl_fail (proc : κ) (h : epollCtl refused (l.addCall fd mask) l.epoll = none) :
    l.addIoEventCtl refused fd proc mask =
      { l with ioEvs := Function.update l.ioEvs fd (some (l.addEntry fd proc mask)) } := by
  unfold addIoEventCtl
  rw [h]

theorem epollCtl_add_cases (refused : Bool) (fd : Fd) (mask : EventMask) (l : EventLoop κ) :
    (refused = false ∧ (l.ioEvs fd).isSome = (l.epoll fd).isSome) ∨
      epollCtl refused (l.addCall fd mask) l.epoll = none := by
  by_cases h : (!refused && (l.addCall fd mask).expected l.epoll) = true
  · rw [Bool.and_eq_true, Bool.not_eq_true', addCall_expected] at h
    exact Or.inl h
  · exact Or.inr (if_neg h)

/-- Where the kernel has no reason of its own, this is `addIoEvent`. -/
theorem addIoEventCtl_false : l.addIoEventCtl false fd proc mask = l.addIoEvent fd proc mask := by
  unfold addIoEvent
  by_cases h : (l.ioEvs fd).isSome = (l.epoll fd).isSome
  · have hexp : (l.addCall fd mask).expected l.epoll = true := addCall_expected.2 h
    have hctl : epollCtl false (l.addCall fd mask) l.epoll =
        some (Function.update l.epoll fd (some (l.addEntry fd proc mask).mask)) := by
      unfold epollCtl
      rw [hexp, addCall_registers]
      rfl
    unfold addIoEventCtl
    rw [hctl]
    exact (if_pos h).symm
  · have hexp : (l.addCall fd mask).expected l.epoll ≠ true := fun he => h (addCall_expected.1 he)
    have hctl : epollCtl false (l.addCall fd mask) l.epoll = none := by
      refine if_neg ?_
      simpa using hexp
    rw [addIoEventCtl_fail proc hctl]
    exact (if_neg h).symm

/-- What an `add_io_event` that is not refused leaves. -/
theorem addIoEventCtl_ok (proc : κ) (hctl : epollCtl refused (l.addCall fd mask) l.epoll ≠ none) :
    l.addIoEventCtl refused fd proc mask =
      { ioEvs := Function.update l.ioEvs fd (some (l.addEntry fd proc mask))
        listenFds := insert fd l.listenFds
        epoll := Function.update l.epoll fd (some (l.addEntry fd proc mask).mask) } := by
  obtain ⟨rfl, hreg⟩ := (epollCtl_add_cases refused fd mask l).resolve_right hctl
  rw [addIoEventCtl_false]
  exact if_pos hreg

/-- The call of `del_io_event` of a descriptor. -/
def delCall (fd : Fd) : EpollCall := ⟨.del, fd, ⟨false, false⟩⟩

/-- The call of `del_io_event` of a mask. -/
def delMaskCall (fd : Fd) (mask : EventMask) (l : EventLoop κ) : Option EpollCall :=
  match l.ioEvs fd with
  | none => none
  | some ev =>
    let oMask := ev.mask.diff mask
    if oMask = ⟨false, false⟩ then some (delCall fd) else some ⟨.mod, fd, oMask⟩

theorem delIoEvent_epoll (fd : Fd) (l : EventLoop κ) :
    (l.delIoEvent fd).epoll = (epollCtl false (delCall fd) l.epoll).getD l.epoll := by
  unfold delIoEvent epollCtl EpollCall.expected EpollCall.registers delCall
  dsimp only
  cases hk : l.epoll fd with
  | none =>
    rw [← hk, Function.update_eq_self]
    simp [hk]
  | some m => simp

theorem delIoEventMask_epoll (fd : Fd) (mask : EventMask) (l : EventLoop κ) :
    (l.delIoEventMask fd mask).epoll =
      match l.delMaskCall fd mask with
      | none => l.epoll
      | some c => (epollCtl false c l.epoll).getD l.epoll := by
  unfold delIoEventMask delMaskCall
  cases l.ioEvs fd with
  | none => rfl
  | some ev =>
    dsimp only
    by_cases hleft : ev.mask.diff mask = ⟨false, false⟩
    · rw [if_pos hleft, if_pos hleft]
      exact delIoEvent_epoll fd l
    · rw [if_neg hleft, if_neg hleft]
      unfold epollCtl EpollCall.expected EpollCall.registers
      cases hk : l.epoll fd <;> simp [hk]

end EventLoop

/-- The operations on a loop; an `add_io_event` may be refused by the kernel. -/
inductive LoopOp (κ : Type*)
  | add (fd : Fd) (proc : κ) (mask : EventMask) (refused : Bool)
  | del (fd : Fd)
  | delMask (fd : Fd) (mask : EventMask)

namespace LoopOp

variable {κ : Type*}

def apply (l : EventLoop κ) : LoopOp κ → EventLoop κ
  | add fd proc mask refused => l.addIoEventCtl refused fd proc mask
  | del fd => l.delIoEvent fd
  | delMask fd mask => l.delIoEventMask fd mask

/-- The call of `epoll_ctl` that an operation makes, if it makes one. -/
def call (l : EventLoop κ) : LoopOp κ → Option EpollCall
  | add fd _ mask _ => some (l.addCall fd mask)
  | del fd => some (EventLoop.delCall fd)
  | delMask fd mask => l.delMaskCall fd mask

def refused : LoopOp κ → Bool
  | add _ _ _ refused => refused
  | del _ => false
  | delMask _ _ => false

/-- One call of `epoll_ctl` at the kernel, which keeps what it has when the call fails. -/
def kernelAfter (op : LoopOp κ) (l : EventLoop κ) : Fd → Option EventMask :=
  match op.call l with
  | none => l.epoll
  | some c => (epollCtl op.refused c l.epoll).getD l.epoll

/-- **The kernel sees the calls and nothing else.** -/
theorem apply_epoll (op : LoopOp κ) (l : EventLoop κ) : (op.apply l).epoll = op.kernelAfter l := by
  cases op with
  | add fd proc mask refused =>
    show (l.addIoEventCtl refused fd proc mask).epoll = (epollCtl refused _ l.epoll).getD l.epoll
    unfold EventLoop.addIoEventCtl
    cases epollCtl refused (l.addCall fd mask) l.epoll <;> rfl
  | del fd => exact l.delIoEvent_epoll fd
  | delMask fd mask => exact l.delIoEventMask_epoll fd mask

/-- The kernel expects the call that an operation makes. -/
def Expected (l : EventLoop κ) (op : LoopOp κ) : Prop :=
  ∀ c, op.call l = some c → c.op ≠ .del → c.expected l.epoll = true

/-- One event or the other, by a kernel without reasons of its own. -/
def Plain : LoopOp κ → Prop
  | add _ _ mask refused => refused = false ∧ (mask = .inp ∨ mask = .out)
  | del _ => True
  | delMask _ _ => True

/-- The operation is an `add_io_event` whose `epoll_ctl` fails. -/
def AddFails (l : EventLoop κ) : LoopOp κ → Prop
  | add fd _ mask refused => epollCtl refused (l.addCall fd mask) l.epoll = none
  | del _ => False
  | delMask _ _ => False

/-- The operation registers again what is registered: the mask has the event already, with
this callback. -/
def Again (l : EventLoop κ) : LoopOp κ → Prop
  | add fd proc mask _ =>
    ∃ ev, l.ioEvs fd = some ev ∧ ev.mask.union mask = ev.mask ∧
      (mask.epollin = true → ev.readCallback = some proc) ∧
      (mask.epollin = false → mask.epollout = true → ev.writeCallback = some proc)
  | del _ => False
  | delMask _ _ => False

end LoopOp

end LbRpc
