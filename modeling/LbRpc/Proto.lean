/-!
# The lbrss messages

The records of `base/proto/lbrss.proto` that the modelled code reads or fills.
Integers keep the width of their protobuf field.
-/

namespace LbRpc

/-- `enum RetCode`. -/
inductive RetCode
  | succ
  | overload
  | systemError
  | noexist
  deriving DecidableEq, Repr

/-- The number of a return code, as it travels in an `int32` field. -/
def RetCode.toInt32 : RetCode → Int32
  | .succ => 0
  | .overload => 1
  | .systemError => 2
  | .noexist => 3

namespace Lbrss

/-- One managed host. -/
structure HostInfo where
  ip : Int32
  port : Int32
  deriving DecidableEq, Repr

structure GetRouteRequest where
  modid : Int32
  cmdid : Int32
  deriving DecidableEq, Repr

structure GetRouteResponse where
  modid : Int32
  cmdid : Int32
  host : List HostInfo
  deriving DecidableEq, Repr

structure HostCallResult where
  ip : Int32
  port : Int32
  succ : UInt32
  err : UInt32
  overload : Bool
  deriving DecidableEq, Repr

structure ReportStatusRequest where
  modid : Int32
  cmdid : Int32
  caller : Int32
  results : List HostCallResult
  ts : UInt32
  deriving DecidableEq, Repr

/-- The part of `GetHostResponse` that the agent's balancer fills: the return code
and, when a host was picked, that host. -/
structure GetHostResponse where
  retcode : RetCode
  host : Option HostInfo
  deriving DecidableEq, Repr

structure GetHostRequest where
  seq : UInt32
  modid : Int32
  cmdid : Int32
  deriving DecidableEq, Repr

structure ReportRequest where
  modid : Int32
  cmdid : Int32
  host : HostInfo
  retcode : Int32
  deriving DecidableEq, Repr

end Lbrss

/-- A response of the agent, under its message ID. -/
inductive AgentReply
  /-- `ID_GetHostResponse` -/
  | getHost (seq : UInt32) (modid cmdid : Int32) (rsp : Lbrss.GetHostResponse)
  /-- `ID_API_GetRouteResponse` -/
  | getRoute (rsp : Lbrss.GetRouteResponse)
  deriving DecidableEq

/-- `(modid + cmdid) % 3`, the index of a socket and of a `RouteLB`. -/
def shard (modid cmdid : Int32) : Int32 := (modid + cmdid) % 3

/-- `((uint64_t)hi << 32) + lo`: both halves are sign-extended before they meet. This
is the key of a host (`ip`, `port`) and of a route (`modid`, `cmdid`). -/
def key (hi lo : Int32) : UInt64 :=
  (hi.toInt64.toUInt64 <<< 32) + lo.toInt64.toUInt64

/-- `(int)(k >> 32)`, as the upper half of a key is taken out again. -/
def keyHi (k : UInt64) : Int32 := (k >>> 32).toUInt32.toInt32

/-- `(int)k`, as the lower half of a key is taken out again. -/
def keyLo (k : UInt64) : Int32 := k.toUInt32.toInt32

end LbRpc
