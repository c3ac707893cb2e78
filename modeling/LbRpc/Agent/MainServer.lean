import LbRpc.Agent.HostInfo
import LbRpc.Reactor.ConfigFile

/-!
# Loading the agent's configuration

`init_lb_agent` (`lb_agent/src/main_server.cpp`) fills the global `lb_config`. A global
starts as zeros, and what is not assigned stays zero.
-/

namespace LbRpc

variable (F : FloatText) (cf : ConfigFile)

/-- A number of the `[loadbalance]` section. -/
def lbNumber (key : String) (default_value : UInt32) : UInt32 :=
  cf.getNumber "loadbalance".toList key.toList default_value

/-- A rate of the `[loadbalance]` section. -/
def lbFloat (key : String) (default_value : ℚ) : ℚ :=
  cf.getFloat F "loadbalance".toList key.toList (F.f32 default_value)

/-- `init_lb_agent`; `hostIp` is what the host's own name resolves to, zero if it does
not. `init_err_cnt` is not among the keys it loads. -/
def initLbAgent (hostIp : UInt32) : LBConfig where
  probeNum := (lbNumber cf "probe_num" 10).toInt32
  initSuccCnt := (lbNumber cf "init_succ_cnt" 180).toInt32
  initErrCnt := 0
  errRate := lbFloat F cf "err_rate" (1 / 10)
  succRate := lbFloat F cf "succ_rate" (92 / 100)
  conSuccLimit := (lbNumber cf "con_succ_limit" 10).toInt32
  conErrLimit := (lbNumber cf "con_err_limit" 10).toInt32
  windowErrRate := lbFloat F cf "window_err_rate" (7 / 10)
  idleTimeout := (lbNumber cf "idle_timeout" 15).toNat
  overloadTimeout := (lbNumber cf "overload_timeout" 15).toNat
  updateTimeout := (lbNumber cf "update_timeout" 15).toNat
  localIp := if hostIp = 0 then 0x7f000001 else hostIp

end LbRpc
