import Mathlib.Algebra.Group.Int.Defs
import Mathlib.Data.Int.Notation
import Mathlib.Data.Nat.Notation
import Mathlib.Tactic.Common
import LbRpc.Base.Ipv4

/-!
# The tables and the web console's statements

The tables of `base/sql/lars_dns.sql` that carry routes, and the statements of
`web/models/modelFunc.go` that write them. A key is taken from `AUTO_INCREMENT`, so every
row's key is below the next one. `RouteVersion` is used through its row with `id = 1`.

* `inetAtoN`: the addresses of `web/utils/utils.go`.
* `Edit`: what one request of the console writes; `Edit.write`: its statement on
  `RouteData`; `Edit.handle`: all of its statements.
-/

namespace LbRpc

open Ipv4 (Quad)

/-- The value of a hex digit. -/
def hexDigit (c : Char) : Option ℕ :=
  if '0' ≤ c ∧ c ≤ '9' then some (c.toNat - 48)
  else if 'a' ≤ c ∧ c ≤ 'f' then some (c.toNat - 87)
  else if 'A' ≤ c ∧ c ≤ 'F' then some (c.toNat - 55)
  else none

/-- The two bytes of a group of one to four hex digits. -/
def hexGroup (s : List Char) : Option (List UInt8) :=
  match s.mapM hexDigit with
  | none => none
  | some ds =>
    let n := ds.foldl (fun acc d => 16 * acc + d) 0
    if 1 ≤ ds.length ∧ ds.length ≤ 4 then some [UInt8.ofNat (n / 256), UInt8.ofNat n] else none

/-- The bytes of groups; at the end of an address the last may be a dotted quad. -/
def groupBytes (atEnd : Bool) : List (List Char) → Option (List UInt8)
  | [] => some []
  | [s] =>
    match hexGroup s, Ipv4.parse s with
    | some bs, _ => some bs
    | none, some q => if atEnd then some [q.a, q.b, q.c, q.d] else none
    | none, none => none
  | s :: ss => do return (← hexGroup s) ++ (← groupBytes atEnd ss)

/-- The groups on one side of `::`, of which there may be none. -/
def sideBytes (atEnd : Bool) (s : List Char) : Option (List UInt8) :=
  if s = [] then some [] else groupBytes atEnd (s.splitOn ':')

/-- What stands in front of the first `::`, and behind it. -/
def splitEllipsis : List Char → Option (List Char × List Char)
  | [] => none
  | ':' :: ':' :: s => some ([], s)
  | c :: s => (splitEllipsis s).map fun r => (c :: r.1, r.2)

/-- The sixteen bytes of an IPv6 text; `::` stands for at least one group. -/
def parseIp6 (s : List Char) : Option (List UInt8) :=
  match splitEllipsis s with
  | none => (sideBytes true s).filter fun bs => bs.length = 16
  | some (front, back) => do
    let front ← sideBytes false front
    let back ← sideBytes true back
    if front.length + back.length ≤ 14 then
      some (front ++ List.replicate (16 - front.length - back.length) 0 ++ back)
    else none

/-- `net.ParseIP(ip).To4()`: a dotted quad, also one that is mapped into IPv6. -/
def parseIpTo4 (ip : List Char) : Option Quad :=
  match Ipv4.parse ip with
  | some q => some q
  | none =>
    match parseIp6 ip with
    | some [0, 0, 0, 0, 0, 0, 0, 0, 0, 0, 255, 255, a, b, c, d] => some ⟨a, b, c, d⟩
    | _ => none

/-- `InetAtoN`: an address is stored with its first byte on top; text without an IPv4 address is
stored as 0. -/
def inetAtoN (ip : List Char) : ℤ :=
  match parseIpTo4 ip with
  | none => 0
  | some q => q.toBig

example : inetAtoN "::ffff:1.2.3.4".toList = 16909060 ∧ inetAtoN "::1.2.3.4".toList = 0 := by decide +kernel

/-- The `serverip` of a row that `HandleAddRoute` or `HandleUpdate` writes for the text
`ip`. -/
def serveripOf (ip : List Char) : UInt32 := UInt32.ofNat (inetAtoN ip).toNat

/-- A row of `RouteData`. -/
structure RouteRow where
  id : ℕ
  modid : UInt32
  cmdid : UInt32
  serverip : UInt32
  serverport : UInt32
  deriving DecidableEq, Repr

/-- A row of `RouteChange`. -/
structure ChangeRow where
  id : ℕ
  modid : UInt32
  cmdid : UInt32
  version : ℤ
  deriving DecidableEq, Repr

/-- `RouteData`. -/
structure RouteTable where
  rows : List RouteRow
  next : ℕ
  fresh : ∀ r ∈ rows, r.id < next

/-- `RouteChange`. -/
structure ChangeTable where
  rows : List ChangeRow
  next : ℕ
  fresh : ∀ r ∈ rows, r.id < next

structure Db where
  routeData : RouteTable
  routeVersion : Option ℤ
  routeChange : ChangeTable

namespace RouteTable

/-- No route has been added yet; `AUTO_INCREMENT` begins at 1. -/
def empty : RouteTable := ⟨[], 1, fun _ h => by cases h⟩

/-- `AddRoute`. -/
def add (modid cmdid serverip serverport : UInt32) (t : RouteTable) : RouteTable where
  rows := t.rows ++ [⟨t.next, modid, cmdid, serverip, serverport⟩]
  next := t.next + 1
  fresh := by
    intro r hr
    rcases List.mem_append.1 hr with h | h
    · exact Nat.lt_succ_of_lt (t.fresh r h)
    · rw [List.mem_singleton.1 h]; exact Nat.lt_succ_self _

/-- `UpdateRoute`. -/
def update (id : ℕ) (modid cmdid serverip serverport : UInt32) (t : RouteTable) : RouteTable where
  rows := t.rows.map fun r => if r.id = id then ⟨r.id, modid, cmdid, serverip, serverport⟩ else r
  next := t.next
  fresh := by
    intro r hr
    obtain ⟨q, hq, rfl⟩ := List.mem_map.1 hr
    split
    · exact t.fresh q hq
    · exact t.fresh q hq

/-- `DeleteRoute`. -/
def delete (id : ℕ) (t : RouteTable) : RouteTable where
  rows := t.rows.filter (·.id ≠ id)
  next := t.next
  fresh := fun r hr => t.fresh r (List.mem_filter.1 hr).1

end RouteTable

namespace ChangeTable

def empty : ChangeTable := ⟨[], 1, fun _ h => by cases h⟩

/-- `INSERT INTO RouteChange`. -/
def insert (modid cmdid : UInt32) (version : ℤ) (t : ChangeTable) : ChangeTable where
  rows := t.rows ++ [⟨t.next, modid, cmdid, version⟩]
  next := t.next + 1
  fresh := by
    intro r hr
    rcases List.mem_append.1 hr with h | h
    · exact Nat.lt_succ_of_lt (t.fresh r h)
    · rw [List.mem_singleton.1 h]; exact Nat.lt_succ_self _

/-- The rows `WHERE version <= v`. -/
def upTo (v : ℤ) (t : ChangeTable) : List ChangeRow := t.rows.filter (·.version ≤ v)

/-- `DELETE FROM RouteChange WHERE version <= v`. -/
def deleteUpTo (v : ℤ) (t : ChangeTable) : ChangeTable where
  rows := t.rows.filter (¬ ·.version ≤ v)
  next := t.next
  fresh := fun r hr => t.fresh r (List.mem_filter.1 hr).1

/-- `DELETE FROM RouteChange`. -/
def deleteAll (t : ChangeTable) : ChangeTable := ⟨[], t.next, fun _ h => by cases h⟩

end ChangeTable

/-- A request of the console: `HandleAddRoute`, `HandleUpdate` and `HandlerDelete`. -/
inductive Edit
  | add (modid cmdid serverip serverport : UInt32)
  | update (id : ℕ) (modid cmdid serverip serverport : UInt32)
  | delete (id : ℕ)
  deriving DecidableEq, Repr

/-- The statement on `RouteData`. -/
def Edit.write : Edit → RouteTable → RouteTable
  | .add modid cmdid serverip serverport => .add modid cmdid serverip serverport
  | .update id modid cmdid serverip serverport => .update id modid cmdid serverip serverport
  | .delete id => .delete id

/-- The arguments of `InsertRouteChange`; a deletion does not call it. -/
def Edit.mod : Edit → Option (UInt32 × UInt32)
  | .add modid cmdid _ _ => some (modid, cmdid)
  | .update _ modid cmdid _ _ => some (modid, cmdid)
  | .delete _ => none

/-- `InsertRouteChange` at the time `now`. -/
def Db.insertRouteChange (modid cmdid : UInt32) (now : ℤ) (db : Db) : Db :=
  { db with routeChange := db.routeChange.insert modid cmdid now }

/-- `UpdateVersion` at the time `now`. -/
def Db.updateVersion (now : ℤ) (db : Db) : Db :=
  { db with routeVersion := db.routeVersion.map fun _ => now }

/-- A whole request whose statements succeed; the clock is read for each of the last two. -/
def Edit.handle (e : Edit) (now later : ℤ) (db : Db) : Db :=
  let db := { db with routeData := e.write db.routeData }
  match e.mod with
  | none => db
  | some (modid, cmdid) => (db.insertRouteChange modid cmdid now).updateVersion later

end LbRpc
