import Mathlib.Algebra.Group.Nat.Defs
import Mathlib.Data.Int.Notation
import LbRpc.Base.Framing

/-!
# Messages on a TCP connection

`MsgHead` (`reactor/include/message.h`) and its bytes. Head and body travel as they lie
in memory; both ends are little-endian machines.

* `format`: the frames that `TCPConn::do_read` accepts.
* `coding`: how both `send_message` functions write a message.
* `parse_messages`, `parse_heads`: the frames of a stream of messages.
* `parse_oversize`: a message above the limit ends the parse with its head.
-/

namespace LbRpc

/-- Ways in which a call of the reactor has no result. -/
inductive Crash
  /-- an `assert` of the source fails -/
  | assertFail
  /-- memory outside a buffer is read or written -/
  | outOfBounds
  /-- `exit(1)` of the buffer pool at its memory limit -/
  | memoryLimit
  /-- a loop is still running -/
  | diverged
  /-- a pointer that nothing has set is followed -/
  | wildPointer
  deriving DecidableEq, Repr

/-- `struct MsgHead`. -/
structure MsgHead where
  msgid : Int32
  msglen : Int32
  deriving DecidableEq, Repr

/-- `MESSAGE_HEAD_LEN`. -/
def messageHeadLen : ℕ := 8

/-- `MESSAGE_LENGTH_LIMIT`. -/
def messageLengthLimit : ℤ := 65535 - 8

/-- A message that is sent. -/
structure Message where
  msgid : Int32
  data : List UInt8
  deriving DecidableEq, Repr

/-- A call of `MsgRouter::call`, with the bytes at its `data`. -/
structure Call where
  msgid : Int32
  msglen : Int32
  data : List UInt8
  deriving DecidableEq, Repr

/-- The four bytes of a word. -/
def wordBytes (w : UInt32) : List UInt8 :=
  [UInt8.ofNat w.toNat, UInt8.ofNat (w.toNat / 2 ^ 8), UInt8.ofNat (w.toNat / 2 ^ 16),
    UInt8.ofNat (w.toNat / 2 ^ 24)]

/-- The word that four bytes make. -/
def bytesWord (a b c d : UInt8) : UInt32 :=
  UInt32.ofNat (a.toNat + 2 ^ 8 * b.toNat + 2 ^ 16 * c.toNat + 2 ^ 24 * d.toNat)

namespace MsgHead

/-- The bytes of a head. -/
def toBytes (h : MsgHead) : List UInt8 := wordBytes h.msgid.toUInt32 ++ wordBytes h.msglen.toUInt32

/-- The head that `memcpy` makes of its bytes. -/
def ofBytes (bs : List UInt8) : MsgHead where
  msgid := (bytesWord (bs.getD 0 0) (bs.getD 1 0) (bs.getD 2 0) (bs.getD 3 0)).toInt32
  msglen := (bytesWord (bs.getD 4 0) (bs.getD 5 0) (bs.getD 6 0) (bs.getD 7 0)).toInt32

/-- The head of a message. -/
def ofMessage (m : Message) : MsgHead := ⟨m.msgid, Int32.ofNat m.data.length⟩

end MsgHead

theorem bytesWord_wordBytes (w : UInt32) :
    bytesWord (UInt8.ofNat w.toNat) (UInt8.ofNat (w.toNat / 2 ^ 8)) (UInt8.ofNat (w.toNat / 2 ^ 16))
      (UInt8.ofNat (w.toNat / 2 ^ 24)) = w := by
  have hlt := w.toNat_lt
  unfold bytesWord
  simp only [UInt8.toNat_ofNat']
  have hsum : w.toNat % 2 ^ 8 + 2 ^ 8 * (w.toNat / 2 ^ 8 % 2 ^ 8) + 2 ^ 16 * (w.toNat / 2 ^ 16 % 2 ^ 8) +
      2 ^ 24 * (w.toNat / 2 ^ 24 % 2 ^ 8) = w.toNat := by omega
  rw [hsum]
  exact UInt32.ofNat_toNat

@[simp] theorem MsgHead.length_toBytes (h : MsgHead) : h.toBytes.length = messageHeadLen := rfl

@[simp] theorem MsgHead.ofBytes_toBytes (h : MsgHead) : ofBytes h.toBytes = h := by
  have h1 := bytesWord_wordBytes h.msgid.toUInt32
  have h2 := bytesWord_wordBytes h.msglen.toUInt32
  exact congrArg₂ MsgHead.mk (congrArg UInt32.toInt32 h1) (congrArg UInt32.toInt32 h2)

/-- The frames of a TCP connection: `do_read` drops the connection over a length that is
negative or above the limit. -/
def format : Framing.Format UInt8 MsgHead where
  headLen := messageHeadLen
  headLen_pos := by decide
  decode := MsgHead.ofBytes
  size := fun h => h.msglen.toInt.toNat
  bad := fun h => decide (messageLengthLimit < h.msglen.toInt ∨ h.msglen.toInt < 0)

theorem format_bad {bs : List UInt8} : format.bad (format.decode bs) = true ↔
    messageLengthLimit < (MsgHead.ofBytes bs).msglen.toInt ∨ (MsgHead.ofBytes bs).msglen.toInt < 0 :=
  decide_eq_true_iff

theorem format_not_bad {bs : List UInt8} : format.bad (format.decode bs) = false ↔
    ¬ (messageLengthLimit < (MsgHead.ofBytes bs).msglen.toInt ∨ (MsgHead.ofBytes bs).msglen.toInt < 0) :=
  decide_eq_false_iff_not

/-- The length in a head that the format accepts. -/
theorem msglen_of_size {hd body : List UInt8} (hb : format.bad (format.decode hd) = false)
    (hs : format.size (format.decode hd) = body.length) :
    (MsgHead.ofBytes hd).msglen.toInt = body.length := by
  have hs' : (MsgHead.ofBytes hd).msglen.toInt.toNat = body.length := hs
  have hb' := format_not_bad.1 hb
  omega

/-- The bytes of a message: its head, then its data. -/
def coding : Framing.Coding format Message where
  head := fun m => (MsgHead.ofMessage m).toBytes
  body := Message.data
  length_head := fun _ => rfl

/-- A message that the receiver's limit lets through. -/
def Message.Sized (m : Message) : Prop := 1 ≤ m.data.length ∧ m.data.length ≤ 65527

/-- The call for a frame. -/
def frameCall (f : MsgHead × List UInt8) : Call := ⟨f.1.msgid, f.1.msglen, f.2⟩

/-- The call for a message: its own id, and all of its data. -/
def Message.call (m : Message) : Call := ⟨m.msgid, Int32.ofNat m.data.length, m.data⟩

@[simp] theorem decode_head (m : Message) : format.decode (coding.head m) = MsgHead.ofMessage m :=
  MsgHead.ofBytes_toBytes _

/-- A head announces its body when the length is within the limit. -/
theorem Message.fits {m : Message} (h : m.data.length ≤ 65527) : coding.Fits m := by
  have hlen : (Int32.ofNat m.data.length).toInt = m.data.length := Int32.toInt_ofNat_of_lt (by omega)
  constructor
  · rw [decode_head]
    show decide (messageLengthLimit < (Int32.ofNat m.data.length).toInt ∨
      (Int32.ofNat m.data.length).toInt < 0) = false
    rw [decide_eq_false_iff_not, hlen]
    unfold messageLengthLimit
    omega
  · rw [decode_head]
    show (Int32.ofNat m.data.length).toInt.toNat = m.data.length
    omega

/-- A longer body makes the head bad, as long as an `int` holds its length. -/
theorem Message.bad_of_long {m : Message} (h : 65527 < m.data.length) (hint : m.data.length < 2147483648) :
    format.bad (format.decode (coding.head m)) = true := by
  have hlen : (Int32.ofNat m.data.length).toInt = m.data.length := Int32.toInt_ofNat_of_lt hint
  rw [decode_head]
  show decide (messageLengthLimit < (Int32.ofNat m.data.length).toInt ∨
    (Int32.ofNat m.data.length).toInt < 0) = true
  rw [decide_eq_true_iff, hlen]
  unfold messageLengthLimit
  omega

theorem frameCall_message (m : Message) :
    frameCall (format.decode (coding.head m), coding.body m) = m.call := by
  rw [decode_head]
  rfl

/-- **What parses of the first bytes of some messages**, when those are within the limit whose
head is there. -/
theorem parse_heads {ms : List Message} {bs : List UInt8} (hbs : bs <+: coding.stream ms)
    (hms : ∀ m ∈ coding.begun bs.length ms, m.data.length ≤ 65527) :
    Framing.parse format bs =
      { frames := (coding.arrived bs.length ms).map fun m => (format.decode (coding.head m), coding.body m)
        rest := bs.drop (coding.stream (coding.arrived bs.length ms)).length
        bad := false } := by
  have hp := Framing.parse_begun ms bs.length fun m hm => Message.fits (hms m hm)
  rw [← List.prefix_iff_eq_take.1 hbs] at hp
  exact hp

theorem parse_messages {ms : List Message} (hms : ∀ m ∈ ms, m.Sized) {bs : List UInt8}
    (hbs : bs <+: coding.stream ms) :
    Framing.parse format bs =
      { frames := (coding.arrived bs.length ms).map fun m => (format.decode (coding.head m), coding.body m)
        rest := bs.drop (coding.stream (coding.arrived bs.length ms)).length
        bad := false } :=
  parse_heads hbs fun m hm => (hms m ((Framing.Coding.begun_prefix _ _).subset hm)).2

/-- **The head of a message above the limit** is a bad one. -/
theorem parse_oversize {ms : List Message} {bs : List UInt8} (hbs : bs <+: coding.stream ms)
    (hint : ∀ m ∈ ms, m.data.length < 2147483648)
    (hlong : ∃ m ∈ coding.begun bs.length ms, 65527 < m.data.length) :
    (Framing.parse format bs).bad = true := by
  have hp := Framing.parse_begun_bad (C := coding) ms bs.length hbs.length_le ?_ ?_
  · rw [← List.prefix_iff_eq_take.1 hbs] at hp
    exact hp
  · intro m hm
    rcases Nat.lt_or_ge 65527 m.data.length with h | h
    · exact Or.inr (Message.bad_of_long h (hint m ((Framing.Coding.begun_prefix _ _).subset hm)))
    · exact Or.inl (Message.fits h)
  · obtain ⟨m, hm, h⟩ := hlong
    have hbad := Message.bad_of_long h (hint m ((Framing.Coding.begun_prefix _ _).subset hm))
    refine ⟨m, hm, fun hfit => ?_⟩
    rw [hfit.1] at hbad
    cases hbad

/-- The frames make the calls for the messages that are there in full. -/
theorem calls_heads {ms : List Message} {bs : List UInt8} (hbs : bs <+: coding.stream ms)
    (hms : ∀ m ∈ coding.begun bs.length ms, m.data.length ≤ 65527) :
    (Framing.parse format bs).frames.map frameCall = (coding.arrived bs.length ms).map Message.call := by
  rw [parse_heads hbs hms, List.map_map]
  exact List.map_congr_left fun m _ => frameCall_message m

/-- The calls for the frames are those for the messages. -/
theorem calls_messages {ms : List Message} (hms : ∀ m ∈ ms, m.Sized) {bs : List UInt8}
    (hbs : bs <+: coding.stream ms) :
    (Framing.parse format bs).frames.map frameCall =
      (coding.arrived bs.length ms).map Message.call :=
  calls_heads hbs fun m hm => (hms m ((Framing.Coding.begun_prefix _ _).subset hm)).2

end LbRpc
