import LbRpc.Reactor.Message
import Mathlib.Data.Finset.Erase
import Mathlib.Data.Finset.Insert
import Mathlib.Logic.Function.Basic

/-!
# The event loop

`EventLoop` (`reactor/include/event_loop.h`, `reactor/src/eventloop.cpp`): its table of
callbacks, and the mask that the kernel keeps for each descriptor behind `_epfd`.
Callbacks, each with its `args`, are values of any type.

* `EventLoop.callback`: which callback a fired event leads to.
* `EventLoop.Sound`: table, `listen_fds` and kernel agree (`EventLoop.Agrees`), and no mask
  asks for a callback that is missing; `add_io_event` and both `del_io_event` keep it.
* `EventLoop.Sound.callback_ok`: a loop that is sound never fails its `assert` and never
  calls through `NULL`.
* `EventLoop.Only`: what the operations do to a loop with one descriptor.
-/

namespace LbRpc

/-- A descriptor number; -1 is none. -/
abbrev Fd := ℤ

/-- A mask: the events that the source registers. -/
structure EventMask where
  epollin : Bool
  epollout : Bool
  deriving DecidableEq, Repr

namespace EventMask

/-- `EPOLLIN` -/
def inp : EventMask := ⟨true, false⟩

/-- `EPOLLOUT` -/
def out : EventMask := ⟨false, true⟩

/-- `m | n` -/
def union (m n : EventMask) : EventMask := ⟨m.epollin || n.epollin, m.epollout || n.epollout⟩

/-- `m & ~n` -/
def diff (m n : EventMask) : EventMask := ⟨m.epollin && !n.epollin, m.epollout && !n.epollout⟩

end EventMask

/-- `IOEvent`, whose constructor sets both callbacks to `NULL`. -/
structure IOEvent (κ : Type*) where
  mask : EventMask
  readCallback : Option κ
  writeCallback : Option κ

structure EventLoop (κ : Type*) where
  /-- `_io_evs` -/
  ioEvs : Fd → Option (IOEvent κ)
  /-- `listen_fds` -/
  listenFds : Finset Fd
  /-- what is registered behind `_epfd` -/
  epoll : Fd → Option EventMask

/-- What the kernel reports for a descriptor; `error` is `EPOLLHUP` or `EPOLLERR` alone. -/
inductive Fired
  | epollin
  | epollout
  | error
  deriving DecidableEq, Repr

namespace EventLoop

variable {κ : Type*} {l : EventLoop κ} {fd fd' : Fd} {ev : IOEvent κ}

/-- The constructor. -/
def new : EventLoop κ := ⟨fun _ => none, ∅, fun _ => none⟩

/-- The entry of `_io_evs` with its callback in place, before the mask is set. -/
def withCallback (proc : κ) (mask : EventMask) (ev : IOEvent κ) : IOEvent κ :=
  if mask.epollin then { ev with readCallback := some proc }
  else if mask.epollout then { ev with writeCallback := some proc }
  else ev

/-- `EventLoop::add_io_event`. -/
def addIoEvent (fd : Fd) (proc : κ) (mask : EventMask) (l : EventLoop κ) : EventLoop κ :=
  let old := (l.ioEvs fd).getD ⟨⟨false, false⟩, none, none⟩
  let finalMask := old.mask.union mask
  let ev := { withCallback proc mask old with mask := finalMask }
  -- `EPOLL_CTL_ADD` fails for a descriptor that is registered, `EPOLL_CTL_MOD` for one that is not
  if (l.ioEvs fd).isSome = (l.epoll fd).isSome then
    { ioEvs := Function.update l.ioEvs fd (some ev)
      listenFds := insert fd l.listenFds
      epoll := Function.update l.epoll fd (some finalMask) }
  else { l with ioEvs := Function.update l.ioEvs fd (some ev) }

/-- `EventLoop::del_io_event` of a descriptor. -/
def delIoEvent (fd : Fd) (l : EventLoop κ) : EventLoop κ where
  ioEvs := Function.update l.ioEvs fd none
  listenFds := l.listenFds.erase fd
  epoll := Function.update l.epoll fd none

/-- `EventLoop::del_io_event` of a mask. -/
def delIoEventMask (fd : Fd) (mask : EventMask) (l : EventLoop κ) : EventLoop κ :=
  match l.ioEvs fd with
  | none => l
  | some ev =>
    let oMask := ev.mask.diff mask
    if oMask = ⟨false, false⟩ then l.delIoEvent fd
    else
      { l with
        ioEvs := Function.update l.ioEvs fd (some { ev with mask := oMask })
        epoll := if (l.epoll fd).isSome then Function.update l.epoll fd (some oMask) else l.epoll }

/-- What `close` of a descriptor does behind `_epfd`. -/
def closed (fd : Fd) (l : EventLoop κ) : EventLoop κ := { l with epoll := Function.update l.epoll fd none }

/-- The kernel can report this event: one of the mask, or an error, which needs no mask. -/
def fires (fd : Fd) (f : Fired) (l : EventLoop κ) : Bool :=
  match l.epoll fd, f with
  | none, _ => false
  | some mask, .epollin => mask.epollin
  | some mask, .epollout => mask.epollout
  | some _, .error => true

/-- The callback that `event_process` comes to; `none` deletes the descriptor. -/
def callback (fd : Fd) (f : Fired) (l : EventLoop κ) : Except Crash (Option κ) :=
  match l.ioEvs fd with
  | none => .error .assertFail
  | some ev =>
    match f with
    | .epollin =>
      match ev.readCallback with
      | none => .error .outOfBounds
      | some proc => .ok (some proc)
    | .epollout =>
      match ev.writeCallback with
      | none => .error .outOfBounds
      | some proc => .ok (some proc)
    | .error => .ok (ev.readCallback <|> ev.writeCallback)

/-- **Table, `listen_fds` and kernel agree**, and what a mask asks for has a callback. -/
structure Sound (l : EventLoop κ) : Prop where
  epoll : ∀ fd, l.epoll fd = (l.ioEvs fd).map IOEvent.mask
  listenFds : ∀ fd, fd ∈ l.listenFds ↔ l.ioEvs fd ≠ none
  read : ∀ fd ev, l.ioEvs fd = some ev → ev.mask.epollin = true → ev.readCallback ≠ none
  write : ∀ fd ev, l.ioEvs fd = some ev → ev.mask.epollout = true → ev.writeCallback ≠ none

theorem sound_new : (new : EventLoop κ).Sound where
  epoll := fun _ => rfl
  listenFds := fun fd => by simp [new]
  read := fun _ _ h => by cases h
  write := fun _ _ h => by cases h

/-- The first half of `Sound`, which needs no condition on the masks that are added. -/
structure Agrees (l : EventLoop κ) : Prop where
  epoll : ∀ fd, l.epoll fd = (l.ioEvs fd).map IOEvent.mask
  listenFds : ∀ fd, fd ∈ l.listenFds ↔ l.ioEvs fd ≠ none

theorem Sound.agrees (h : l.Sound) : l.Agrees := ⟨h.epoll, h.listenFds⟩

/-- Where table and kernel agree, `epoll_ctl` succeeds. -/
theorem Agrees.registered (h : l.Agrees) (fd : Fd) : (l.ioEvs fd).isSome = (l.epoll fd).isSome := by
  rw [h.epoll, Option.isSome_map]

theorem Sound.registered (h : l.Sound) (fd : Fd) : (l.ioEvs fd).isSome = (l.epoll fd).isSome :=
  h.agrees.registered fd

/-- Replacing one entry in table, list and kernel. -/
theorem Agrees.update (h : l.Agrees) (fd : Fd) (ev : IOEvent κ) :
    Agrees { ioEvs := Function.update l.ioEvs fd (some ev)
             listenFds := insert fd l.listenFds
             epoll := Function.update l.epoll fd (some ev.mask) } := by
  refine ⟨fun d => ?_, fun d => ?_⟩
  · by_cases hdf : d = fd
    · subst hdf
      dsimp only
      rw [Function.update_self, Function.update_self]
      rfl
    · dsimp only
      rw [Function.update_of_ne hdf, Function.update_of_ne hdf]
      exact h.epoll d
  · rw [Finset.mem_insert]
    by_cases hdf : d = fd
    · subst hdf
      dsimp only
      rw [Function.update_self]
      exact ⟨fun _ => Option.some_ne_none ev, fun _ => Or.inl rfl⟩
    · dsimp only
      rw [Function.update_of_ne hdf]
      exact ⟨fun hm => (h.listenFds d).1 (hm.resolve_left hdf), fun hm => Or.inr ((h.listenFds d).2 hm)⟩

theorem Agrees.delIoEvent (h : l.Agrees) (fd : Fd) : (l.delIoEvent fd).Agrees := by
  refine ⟨fun d => ?_, fun d => ?_⟩
  · by_cases hdf : d = fd
    · subst hdf
      unfold EventLoop.delIoEvent
      dsimp only
      rw [Function.update_self, Function.update_self]
      rfl
    · unfold EventLoop.delIoEvent
      dsimp only
      rw [Function.update_of_ne hdf, Function.update_of_ne hdf]
      exact h.epoll d
  · unfold EventLoop.delIoEvent
    dsimp only
    rw [Finset.mem_erase]
    by_cases hdf : d = fd
    · subst hdf
      rw [Function.update_self]
      exact ⟨fun hm => absurd rfl hm.1, fun hm => absurd rfl hm⟩
    · rw [Function.update_of_ne hdf]
      exact ⟨fun hm => (h.listenFds d).1 hm.2, fun hm => ⟨hdf, (h.listenFds d).2 hm⟩⟩

/-- **`del_io_event` of a mask** finds no entry, takes all of it away, or leaves the rest of its
mask. -/
theorem Agrees.delIoEventMask_cases (h : l.Agrees) (fd : Fd) (mask : EventMask) :
    l.delIoEventMask fd mask = l ∨ l.delIoEventMask fd mask = l.delIoEvent fd ∨
      ∃ ev, l.ioEvs fd = some ev ∧ ev.mask.diff mask ≠ ⟨false, false⟩ ∧
        l.delIoEventMask fd mask =
          { ioEvs := Function.update l.ioEvs fd (some { ev with mask := ev.mask.diff mask })
            listenFds := insert fd l.listenFds
            epoll := Function.update l.epoll fd (some (ev.mask.diff mask)) } := by
  unfold EventLoop.delIoEventMask
  cases hev : l.ioEvs fd with
  | none => exact Or.inl rfl
  | some ev =>
    refine Or.inr ?_
    dsimp only
    by_cases hleft : ev.mask.diff mask = ⟨false, false⟩
    · rw [if_pos hleft]
      exact Or.inl rfl
    · have hsome : (l.epoll fd).isSome = true := by rw [← h.registered, hev]; rfl
      have hmem : insert fd l.listenFds = l.listenFds :=
        Finset.insert_eq_of_mem ((h.listenFds fd).2 (by rw [hev]; exact Option.some_ne_none ev))
      rw [if_neg hleft, if_pos hsome, hmem]
      exact Or.inr ⟨ev, rfl, hleft, rfl⟩

theorem Agrees.delIoEventMask (h : l.Agrees) (fd : Fd) (mask : EventMask) :
    (l.delIoEventMask fd mask).Agrees := by
  rcases h.delIoEventMask_cases fd mask with hsame | hall | ⟨ev, -, -, hrest⟩
  · rw [hsame]
    exact h
  · rw [hall]
    exact h.delIoEvent fd
  · rw [hrest]
    exact h.update fd { ev with mask := ev.mask.diff mask }

/-- The entry that `add_io_event` leaves. -/
theorem Sound.addIoEvent_eq (h : l.Sound) (fd : Fd) (proc : κ) (mask : EventMask) :
    l.addIoEvent fd proc mask =
      let old := (l.ioEvs fd).getD ⟨⟨false, false⟩, none, none⟩
      { ioEvs := Function.update l.ioEvs fd
          (some { withCallback proc mask old with mask := old.mask.union mask })
        listenFds := insert fd l.listenFds
        epoll := Function.update l.epoll fd (some (old.mask.union mask)) } :=
  if_pos (h.registered fd)

theorem Sound.update (h : l.Sound) (fd : Fd) (ev : IOEvent κ)
    (hread : ev.mask.epollin = true → ev.readCallback ≠ none)
    (hwrite : ev.mask.epollout = true → ev.writeCallback ≠ none) :
    Sound { ioEvs := Function.update l.ioEvs fd (some ev)
            listenFds := insert fd l.listenFds
            epoll := Function.update l.epoll fd (some ev.mask) } := by
  have hagrees := h.agrees.update fd ev
  refine ⟨hagrees.epoll, hagrees.listenFds, fun d e hd => ?_, fun d e hd => ?_⟩
  · dsimp only at hd
    by_cases hdf : d = fd
    · subst hdf
      rw [Function.update_self] at hd
      cases hd
      exact hread
    · rw [Function.update_of_ne hdf] at hd
      exact h.read d e hd
  · dsimp only at hd
    by_cases hdf : d = fd
    · subst hdf
      rw [Function.update_self] at hd
      cases hd
      exact hwrite
    · rw [Function.update_of_ne hdf] at hd
      exact h.write d e hd

theorem Sound.addIoEvent (h : l.Sound) (fd : Fd) (proc : κ) (mask : EventMask)
    (hone : mask = .inp ∨ mask = .out) : (l.addIoEvent fd proc mask).Sound := by
  rw [h.addIoEvent_eq]
  -- the callbacks of the old entry, if there is one
  have hold : ∀ e, e = (l.ioEvs fd).getD ⟨⟨false, false⟩, none, none⟩ →
      (e.mask.epollin = true → e.readCallback ≠ none) ∧ (e.mask.epollout = true → e.writeCallback ≠ none) := by
    rintro e rfl
    rcases hev : l.ioEvs fd with _ | ev
    · constructor <;> intro hm <;> cases hm
    · exact ⟨h.read fd ev hev, h.write fd ev hev⟩
  obtain ⟨hread, hwrite⟩ := hold _ rfl
  generalize (l.ioEvs fd).getD ⟨⟨false, false⟩, none, none⟩ = old at hread hwrite
  refine h.update fd _ (fun hm => ?_) fun hm => ?_
  · rcases hone with rfl | rfl
    · exact Option.some_ne_none proc
    · refine hread ?_
      simpa [EventMask.union, EventMask.out] using hm
  · rcases hone with rfl | rfl
    · refine hwrite ?_
      simpa [EventMask.union, EventMask.inp] using hm
    · exact Option.some_ne_none proc

/-- Deleting a descriptor leaves the entries of the others. -/
theorem delIoEvent_entry {d : Fd} (hd : (l.delIoEvent fd).ioEvs d = some ev) : l.ioEvs d = some ev := by
  by_cases hdf : d = fd
  · subst hdf
    have hnone : (l.delIoEvent d).ioEvs d = none := Function.update_self ..
    rw [hnone] at hd
    cases hd
  · exact (Function.update_of_ne hdf _ _).symm.trans hd

theorem Sound.delIoEvent (h : l.Sound) (fd : Fd) : (l.delIoEvent fd).Sound where
  epoll := (h.agrees.delIoEvent fd).epoll
  listenFds := (h.agrees.delIoEvent fd).listenFds
  read := fun d e hd => h.read d e (delIoEvent_entry hd)
  write := fun d e hd => h.write d e (delIoEvent_entry hd)

/-- What is left of a mask, with the callbacks as they were. -/
theorem Sound.delIoEventMask (h : l.Sound) (fd : Fd) (mask : EventMask) :
    (l.delIoEventMask fd mask).Sound := by
  rcases h.agrees.delIoEventMask_cases fd mask with hsame | hall | ⟨ev, hev, -, hrest⟩
  · rw [hsame]
    exact h
  · rw [hall]
    exact h.delIoEvent fd
  · rw [hrest]
    exact h.update fd { ev with mask := ev.mask.diff mask }
      (fun hm => h.read fd ev hev (Bool.and_eq_true _ _ ▸ hm).1)
      (fun hm => h.write fd ev hev (Bool.and_eq_true _ _ ▸ hm).1)

/-- Closing what is not registered changes nothing. -/
theorem Sound.closed (h : l.Sound) (hfd : l.ioEvs fd = none) : (l.closed fd).Sound := by
  have hsame : l.closed fd = l := by
    have hnone : l.epoll fd = none := by rw [h.epoll, hfd]; rfl
    unfold EventLoop.closed
    rw [← hnone, Function.update_eq_self]
  rw [hsame]
  exact h

/-- **No `assert` fails and no `NULL` is called** for an event that the kernel reports. -/
theorem Sound.callback_ok (h : l.Sound) {f : Fired} (hf : l.fires fd f = true) :
    ∃ proc, l.callback fd f = .ok proc := by
  unfold fires at hf
  rw [h.epoll] at hf
  unfold callback
  rcases hev : l.ioEvs fd with _ | ev
  · rw [hev] at hf
    cases f <;> cases hf
  · rw [hev] at hf
    cases f with
    | epollin =>
      obtain ⟨proc, hproc⟩ := Option.ne_none_iff_exists'.1 (h.read fd ev hev hf)
      dsimp only
      rw [hproc]
      exact ⟨some proc, rfl⟩
    | epollout =>
      obtain ⟨proc, hproc⟩ := Option.ne_none_iff_exists'.1 (h.write fd ev hev hf)
      dsimp only
      rw [hproc]
      exact ⟨some proc, rfl⟩
    | error => exact ⟨_, rfl⟩

/-! ## A loop with one descriptor -/

/-- **A sound loop that has no entry but that of `fd`**, which is `e`. -/
structure Only (l : EventLoop κ) (fd : Fd) (e : Option (IOEvent κ)) : Prop where
  sound : l.Sound
  ioEvs : l.ioEvs = Function.update (fun _ => none) fd e

variable {e : Option (IOEvent κ)} {mask : EventMask}

theorem only_new (fd : Fd) : (new : EventLoop κ).Only fd none :=
  ⟨sound_new, (Function.update_eq_self fd (fun _ => (none : Option (IOEvent κ)))).symm⟩

theorem Only.entry (h : l.Only fd e) : l.ioEvs fd = e := by
  rw [h.ioEvs]
  exact Function.update_self ..

theorem Only.epoll (h : l.Only fd e) : l.epoll fd = e.map IOEvent.mask := by
  rw [h.sound.epoll, h.entry]

/-- A loop without an entry has none for any descriptor. -/
theorem Only.move (h : l.Only fd none) (fd' : Fd) : l.Only fd' none := by
  refine ⟨h.sound, ?_⟩
  rw [h.ioEvs, Function.update_eq_self fd (fun _ => none), Function.update_eq_self fd' (fun _ => none)]

theorem Only.add (h : l.Only fd e) (proc : κ) (hone : mask = .inp ∨ mask = .out) :
    (l.addIoEvent fd proc mask).Only fd (some
      { withCallback proc mask (e.getD ⟨⟨false, false⟩, none, none⟩) with
        mask := (e.getD ⟨⟨false, false⟩, none, none⟩).mask.union mask }) := by
  refine ⟨h.sound.addIoEvent fd proc mask hone, ?_⟩
  rw [h.sound.addIoEvent_eq]
  dsimp only
  rw [h.entry, h.ioEvs, Function.update_idem]

theorem Only.del (h : l.Only fd e) : (l.delIoEvent fd).Only fd none := by
  refine ⟨h.sound.delIoEvent fd, ?_⟩
  unfold EventLoop.delIoEvent
  dsimp only
  rw [h.ioEvs, Function.update_idem]

theorem Only.delMask (h : l.Only fd (some ev)) (mask : EventMask)
    (hleft : ev.mask.diff mask ≠ ⟨false, false⟩) :
    (l.delIoEventMask fd mask).Only fd (some { ev with mask := ev.mask.diff mask }) := by
  refine ⟨h.sound.delIoEventMask fd mask, ?_⟩
  unfold EventLoop.delIoEventMask
  rw [h.entry]
  dsimp only
  rw [if_neg hleft]
  dsimp only
  rw [h.ioEvs, Function.update_idem]

/-- The last event of a mask takes the descriptor with it. -/
theorem Only.delMask_all (h : l.Only fd (some ev)) (hleft : ev.mask.diff mask = ⟨false, false⟩) :
    (l.delIoEventMask fd mask).Only fd none := by
  unfold EventLoop.delIoEventMask
  rw [h.entry]
  dsimp only
  rw [if_pos hleft]
  exact h.del

theorem Only.closed (h : l.Only fd none) : (l.closed fd).Only fd none :=
  ⟨h.sound.closed h.entry, h.ioEvs⟩

end EventLoop

end LbRpc
