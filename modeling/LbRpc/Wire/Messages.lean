import LbRpc.Base.Wire
import LbRpc.Proto

/-!
# The generated code of the lbrss messages

`base/proto/lbrss.pb.cpp`: for each message its `_InternalParse`, `_InternalSerialize`,
`ByteSizeLong` and `MergeFrom`. What they call of the protobuf library is a `Wire.Runtime`.
Messages keep no unknown fields, sizes stay below that of an `int`, and a parse that fails is
`none`, whatever it has read so far.

* `HostInfo.codec` and its seven fellows: the code of one message.
-/

namespace LbRpc

namespace Lbrss

open Wire

/-- All fields of a `GetHostResponse`. -/
structure GetHostResponseFields where
  seq : UInt32
  modid : Int32
  cmdid : Int32
  retcode : Int32
  /-- `has_host` tells whether it is there -/
  host : Option HostInfo
  deriving DecidableEq, Repr

/-- All fields of a `ReportRequest`. -/
structure ReportRequestFields where
  modid : Int32
  cmdid : Int32
  host : Option HostInfo
  retcode : Int32
  deriving DecidableEq, Repr

variable (R : Runtime)

/-! ## Values -/

/-- An `int32` as a varint: sign-extended. -/
def int32Word (v : Int32) : UInt64 := v.toInt64.toUInt64

/-- The `int32` that a varint is cut to. -/
def wordInt32 (w : UInt64) : Int32 := w.toUInt32.toInt32

/-- `WriteInt32ToArray`, where the field is not zero. -/
def writeInt32 (tag : UInt8) (v : Int32) : List UInt8 :=
  if v ≠ 0 then tag :: R.writeVarint (int32Word v) else []

/-- `WriteUInt32ToArray`, where the field is not zero. -/
def writeUInt32 (tag : UInt8) (v : UInt32) : List UInt8 :=
  if v ≠ 0 then tag :: R.writeVarint v.toUInt64 else []

/-- `WriteBoolToArray`, where the field is set. -/
def writeBool (tag : UInt8) (v : Bool) : List UInt8 := if v then tag :: R.writeVarint 1 else []

/-- The size of an `int32` field with its tag. -/
def int32Size (v : Int32) : ℕ := if v ≠ 0 then 1 + R.varintSize (int32Word v) else 0

/-- The size of a `uint32` field with its tag. -/
def uint32Size (v : UInt32) : ℕ := if v ≠ 0 then 1 + R.varintSize v.toUInt64 else 0

/-- `MessageSize`, with the tag. -/
def messageSize (size : ℕ) : ℕ := 1 + (size + R.varintSize (UInt64.ofNat size))

/-- What `MergeFrom` does to a scalar field. -/
def mergeScalar {α : Type} [DecidableEq α] [OfNat α 0] (v w : α) : α := if w ≠ 0 then w else v

/-- `MergeFrom` of a field that is a message. -/
def mergeHost (mergeFrom : HostInfo → HostInfo → HostInfo) (host : Option HostInfo) : Option HostInfo → Option HostInfo
  | none => host
  | some from' => some (mergeFrom (host.getD ⟨0, 0⟩) from')

/-! ## The messages -/

namespace HostInfo

def fields : UInt32 → Option (Reader HostInfo) := switch [
  ⟨1, 8, varint64 R fun v m => { m with ip := wordInt32 v }⟩,
  ⟨2, 16, varint64 R fun v m => { m with port := wordInt32 v }⟩]

def codec : Codec HostInfo where
  empty := ⟨0, 0⟩
  parse := Wire.parse R (fields R)
  serialize := fun m => writeInt32 R 8 m.ip ++ writeInt32 R 16 m.port
  byteSize := fun m => int32Size R m.ip + int32Size R m.port
  mergeFrom := fun m src => ⟨mergeScalar m.ip src.ip, mergeScalar m.port src.port⟩

end HostInfo

namespace GetRouteRequest

def fields : UInt32 → Option (Reader GetRouteRequest) := switch [
  ⟨1, 8, varint64 R fun v m => { m with modid := wordInt32 v }⟩,
  ⟨2, 16, varint64 R fun v m => { m with cmdid := wordInt32 v }⟩]

def codec : Codec GetRouteRequest where
  empty := ⟨0, 0⟩
  parse := Wire.parse R (fields R)
  serialize := fun m => writeInt32 R 8 m.modid ++ writeInt32 R 16 m.cmdid
  byteSize := fun m => int32Size R m.modid + int32Size R m.cmdid
  mergeFrom := fun m src => ⟨mergeScalar m.modid src.modid, mergeScalar m.cmdid src.cmdid⟩

end GetRouteRequest

namespace GetRouteResponse

/-- `_internal_add_host`, and the message that is parsed into it. -/
def addHost : Reader GetRouteResponse :=
  nested R (fun _ => (HostInfo.codec R).empty) (fun v m => { m with host := m.host ++ [v] }) (HostInfo.codec R).parse

def fields : UInt32 → Option (Reader GetRouteResponse) := switch [
  ⟨1, 8, varint64 R fun v m => { m with modid := wordInt32 v }⟩,
  ⟨2, 16, varint64 R fun v m => { m with cmdid := wordInt32 v }⟩,
  ⟨3, 26, repeated 26 (addHost R)⟩]

def codec : Codec GetRouteResponse where
  empty := ⟨0, 0, []⟩
  parse := Wire.parse R (fields R)
  serialize := fun m =>
    writeInt32 R 8 m.modid ++ writeInt32 R 16 m.cmdid ++
      m.host.flatMap fun h => writeNested R 26 ((HostInfo.codec R).byteSize h) ((HostInfo.codec R).serialize h)
  byteSize := fun m =>
    (m.host.map fun h => messageSize R ((HostInfo.codec R).byteSize h)).sum +
      int32Size R m.modid + int32Size R m.cmdid
  mergeFrom := fun m src =>
    ⟨mergeScalar m.modid src.modid, mergeScalar m.cmdid src.cmdid, m.host ++ src.host⟩

end GetRouteResponse

namespace HostCallResult

def fields : UInt32 → Option (Reader HostCallResult) := switch [
  ⟨1, 8, varint64 R fun v m => { m with ip := wordInt32 v }⟩,
  ⟨2, 16, varint64 R fun v m => { m with port := wordInt32 v }⟩,
  ⟨3, 24, varint32 R fun v m => { m with succ := v }⟩,
  ⟨4, 32, varint32 R fun v m => { m with err := v }⟩,
  ⟨5, 40, varint64 R fun v m => { m with overload := v != 0 }⟩]

def codec : Codec HostCallResult where
  empty := ⟨0, 0, 0, 0, false⟩
  parse := Wire.parse R (fields R)
  serialize := fun m =>
    writeInt32 R 8 m.ip ++ writeInt32 R 16 m.port ++ writeUInt32 R 24 m.succ ++ writeUInt32 R 32 m.err ++
      writeBool R 40 m.overload
  byteSize := fun m =>
    int32Size R m.ip + int32Size R m.port + uint32Size R m.succ + uint32Size R m.err +
      if m.overload then 1 + 1 else 0
  mergeFrom := fun m src =>
    ⟨mergeScalar m.ip src.ip, mergeScalar m.port src.port, mergeScalar m.succ src.succ,
      mergeScalar m.err src.err, m.overload || src.overload⟩

end HostCallResult

namespace ReportStatusRequest

/-- `_internal_add_results`, and the message that is parsed into it. -/
def addResults : Reader ReportStatusRequest :=
  nested R (fun _ => (HostCallResult.codec R).empty) (fun v m => { m with results := m.results ++ [v] })
    (HostCallResult.codec R).parse

def fields : UInt32 → Option (Reader ReportStatusRequest) := switch [
  ⟨1, 8, varint64 R fun v m => { m with modid := wordInt32 v }⟩,
  ⟨2, 16, varint64 R fun v m => { m with cmdid := wordInt32 v }⟩,
  ⟨3, 24, varint64 R fun v m => { m with caller := wordInt32 v }⟩,
  ⟨4, 34, repeated 34 (addResults R)⟩,
  ⟨5, 40, varint32 R fun v m => { m with ts := v }⟩]

def codec : Codec ReportStatusRequest where
  empty := ⟨0, 0, 0, [], 0⟩
  parse := Wire.parse R (fields R)
  serialize := fun m =>
    writeInt32 R 8 m.modid ++ writeInt32 R 16 m.cmdid ++ writeInt32 R 24 m.caller ++
      (m.results.flatMap fun r =>
        writeNested R 34 ((HostCallResult.codec R).byteSize r) ((HostCallResult.codec R).serialize r)) ++
      writeUInt32 R 40 m.ts
  byteSize := fun m =>
    (m.results.map fun r => messageSize R ((HostCallResult.codec R).byteSize r)).sum +
      int32Size R m.modid + int32Size R m.cmdid + int32Size R m.caller + uint32Size R m.ts
  mergeFrom := fun m src =>
    ⟨mergeScalar m.modid src.modid, mergeScalar m.cmdid src.cmdid, mergeScalar m.caller src.caller,
      m.results ++ src.results, mergeScalar m.ts src.ts⟩

end ReportStatusRequest

namespace GetHostRequest

def fields : UInt32 → Option (Reader GetHostRequest) := switch [
  ⟨1, 8, varint32 R fun v m => { m with seq := v }⟩,
  ⟨2, 16, varint64 R fun v m => { m with modid := wordInt32 v }⟩,
  ⟨3, 24, varint64 R fun v m => { m with cmdid := wordInt32 v }⟩]

def codec : Codec GetHostRequest where
  empty := ⟨0, 0, 0⟩
  parse := Wire.parse R (fields R)
  serialize := fun m => writeUInt32 R 8 m.seq ++ writeInt32 R 16 m.modid ++ writeInt32 R 24 m.cmdid
  byteSize := fun m => uint32Size R m.seq + int32Size R m.modid + int32Size R m.cmdid
  mergeFrom := fun m src =>
    ⟨mergeScalar m.seq src.seq, mergeScalar m.modid src.modid, mergeScalar m.cmdid src.cmdid⟩

end GetHostRequest

namespace GetHostResponseFields

def fields : UInt32 → Option (Reader GetHostResponseFields) := switch [
  ⟨1, 8, varint32 R fun v m => { m with seq := v }⟩,
  ⟨2, 16, varint64 R fun v m => { m with modid := wordInt32 v }⟩,
  ⟨3, 24, varint64 R fun v m => { m with cmdid := wordInt32 v }⟩,
  ⟨4, 32, varint64 R fun v m => { m with retcode := wordInt32 v }⟩,
  -- `_internal_mutable_host`
  ⟨5, 42, nested R (fun m => m.host.getD ⟨0, 0⟩) (fun v m => { m with host := some v }) (HostInfo.codec R).parse⟩]

def codec : Codec GetHostResponseFields where
  empty := ⟨0, 0, 0, 0, none⟩
  parse := Wire.parse R (fields R)
  serialize := fun m =>
    writeUInt32 R 8 m.seq ++ writeInt32 R 16 m.modid ++ writeInt32 R 24 m.cmdid ++ writeInt32 R 32 m.retcode ++
      m.host.toList.flatMap fun h =>
        writeNested R 42 ((HostInfo.codec R).byteSize h) ((HostInfo.codec R).serialize h)
  byteSize := fun m =>
    (m.host.toList.map fun h => messageSize R ((HostInfo.codec R).byteSize h)).sum +
      uint32Size R m.seq + int32Size R m.modid + int32Size R m.cmdid + int32Size R m.retcode
  mergeFrom := fun m src =>
    ⟨mergeScalar m.seq src.seq, mergeScalar m.modid src.modid, mergeScalar m.cmdid src.cmdid,
      mergeScalar m.retcode src.retcode, mergeHost (HostInfo.codec R).mergeFrom m.host src.host⟩

end GetHostResponseFields

namespace ReportRequestFields

def fields : UInt32 → Option (Reader ReportRequestFields) := switch [
  ⟨1, 8, varint64 R fun v m => { m with modid := wordInt32 v }⟩,
  ⟨2, 16, varint64 R fun v m => { m with cmdid := wordInt32 v }⟩,
  ⟨3, 26, nested R (fun m => m.host.getD ⟨0, 0⟩) (fun v m => { m with host := some v }) (HostInfo.codec R).parse⟩,
  ⟨4, 32, varint64 R fun v m => { m with retcode := wordInt32 v }⟩]

def codec : Codec ReportRequestFields where
  empty := ⟨0, 0, none, 0⟩
  parse := Wire.parse R (fields R)
  serialize := fun m =>
    writeInt32 R 8 m.modid ++ writeInt32 R 16 m.cmdid ++
      (m.host.toList.flatMap fun h =>
        writeNested R 26 ((HostInfo.codec R).byteSize h) ((HostInfo.codec R).serialize h)) ++
      writeInt32 R 32 m.retcode
  byteSize := fun m =>
    (m.host.toList.map fun h => messageSize R ((HostInfo.codec R).byteSize h)).sum +
      int32Size R m.modid + int32Size R m.cmdid + int32Size R m.retcode
  mergeFrom := fun m src =>
    ⟨mergeScalar m.modid src.modid, mergeScalar m.cmdid src.cmdid,
      mergeHost (HostInfo.codec R).mergeFrom m.host src.host, mergeScalar m.retcode src.retcode⟩

end ReportRequestFields

end Lbrss

end LbRpc
