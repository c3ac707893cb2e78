import LbRpc.Reactor.Message
import Mathlib.Logic.Function.Basic

/-!
# The message router

`MsgRouter` (`reactor/include/message.h`): the callback and the user data of each message ID.
Both are values of any type.

* `MsgRouter.find_registered`: over any number of registrations the first one of an ID counts.
-/

namespace LbRpc

structure MsgRouter (κ υ : Type*) where
  /-- `_router` -/
  router : Int32 → Option κ
  /-- `_args` -/
  args : Int32 → Option υ

namespace MsgRouter

variable {κ υ : Type*}

/-- The constructor. -/
def new : MsgRouter κ υ := ⟨fun _ => none, fun _ => none⟩

/-- `MsgRouter::register_msg_router`. -/
def registerMsgRouter (msgid : Int32) (msgCb : κ) (userData : υ) (r : MsgRouter κ υ) : ℤ × MsgRouter κ υ :=
  match r.router msgid with
  | some _ => (-1, r)
  | none =>
    (0, { router := Function.update r.router msgid (some msgCb)
          args := Function.update r.args msgid (some userData) })

/-- The callback that `MsgRouter::call` makes, with its user data; none for an ID that is not
registered. -/
def find (msgid : Int32) (r : MsgRouter κ υ) : Option (κ × Option υ) :=
  match r.router msgid with
  | none => none
  | some callback => some (callback, r.args msgid)

/-- A call of `register_msg_router`. -/
structure Registration (κ υ : Type*) where
  msgid : Int32
  msgCb : κ
  userData : υ

/-- Some calls of `register_msg_router`, one after the other: what they return, and the router. -/
def registerAll : List (Registration κ υ) → MsgRouter κ υ → List ℤ × MsgRouter κ υ
  | [], r => ([], r)
  | g :: gs, r =>
    let first := r.registerMsgRouter g.msgid g.msgCb g.userData
    let rest := registerAll gs first.2
    (first.1 :: rest.1, rest.2)

/-- What a router with the first of some registrations finds. -/
def firstOf (msgid : Int32) (gs : List (Registration κ υ)) : Option (κ × Option υ) :=
  (gs.find? fun g => g.msgid = msgid).map fun g => (g.msgCb, some g.userData)

theorem find_register (r : MsgRouter κ υ) (g : Registration κ υ) (msgid : Int32) :
    (r.registerMsgRouter g.msgid g.msgCb g.userData).2.find msgid =
      (r.find msgid <|> firstOf msgid [g]) := by
  unfold registerMsgRouter firstOf find
  rw [List.find?_cons, List.find?_nil]
  by_cases hid : g.msgid = msgid
  · subst hid
    rcases hr : r.router g.msgid with _ | cb
    · simp [Function.update_self]
    · simp [hr]
  · have hother : msgid ≠ g.msgid := fun h => hid h.symm
    rcases hr : r.router g.msgid with _ | cb
    · simp [hid, Function.update_of_ne hother]
    · simp [hid]

/-- **The first registration of an ID counts**, before those that the router has already. -/
theorem find_registerAll (gs : List (Registration κ υ)) (r : MsgRouter κ υ) (msgid : Int32) :
    (registerAll gs r).2.find msgid = (r.find msgid <|> firstOf msgid gs) := by
  induction gs generalizing r with
  | nil =>
    show r.find msgid = _
    cases r.find msgid <;> rfl
  | cons g gs ih =>
    show (registerAll gs (r.registerMsgRouter g.msgid g.msgCb g.userData).2).2.find msgid = _
    rw [ih, find_register]
    unfold firstOf
    rw [List.find?_cons]
    cases r.find msgid with
    | some c => rfl
    | none => by_cases hid : g.msgid = msgid <;> simp [hid]

theorem find_registered (gs : List (Registration κ υ)) (msgid : Int32) :
    (registerAll gs new).2.find msgid = firstOf msgid gs := by
  rw [find_registerAll]
  rfl

end MsgRouter

end LbRpc
