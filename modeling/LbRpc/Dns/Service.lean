import LbRpc.Dns.Route

/-!
# What the DNS service sends

The bodies of `get_route` (`dns/src/dns_service.cpp`) and `push_change_task`
(`dns/src/subscribe.cpp`) that turn routes into a `GetRouteResponse`. A `hash_set` is
walked in an order of its own.

* `routeResponse`: the message both functions build.
* `pushPair`, `pushHosts`: what `push_change_task` makes of an entry of the push list.
-/

namespace LbRpc

/-- A walk over a set: every element once, in some order. -/
def Walks {α : Type*} [DecidableEq α] (l : List α) (s : Finset α) : Prop := l.Nodup ∧ l.toFinset = s

instance {α : Type*} [DecidableEq α] (l : List α) (s : Finset α) : Decidable (Walks l s) :=
  inferInstanceAs (Decidable (_ ∧ _))

/-- The `HostInfo` of an `ip_port` value. -/
def hostInfo (ipPort : UInt64) : Lbrss.HostInfo := ⟨keyHi ipPort, keyLo ipPort⟩

/-- The response for a modid/cmdid, with the hosts in the order of the walk. -/
def routeResponse (modid cmdid : Int32) (hosts : List UInt64) : Lbrss.GetRouteResponse :=
  ⟨modid, cmdid, hosts.map hostInfo⟩

/-- The key under which `get_route` subscribes. -/
def subscribeKey (req : Lbrss.GetRouteRequest) : UInt64 := key req.modid req.cmdid

/-- The modid and cmdid that `push_change_task` takes out of an entry. -/
def pushPair (mod : UInt64) : Int32 × Int32 := (keyHi mod, keyLo mod)

/-- The hosts that `push_change_task` looks up for an entry. -/
def pushHosts (mod : UInt64) (r : Route) : Finset UInt64 :=
  r.getHosts (pushPair mod).1 (pushPair mod).2

end LbRpc
