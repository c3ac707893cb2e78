import LbRpc.Proto
import LbRpc.Web.Models
import Mathlib.Data.List.AList
import Mathlib.Data.Finset.Insert
import Mathlib.Data.Finset.Fold

/-!
# The routes of the DNS service

`Route` (`dns/include/dns_route.h`, `dns/src/dns_route.cpp`) and its thread
`check_route_changes`. A query gives `none` when it fails. Number columns come as text;
`atoi` takes them modulo 2^32.

* `Checker.step`: one statement of the thread; each query, `swap` and `publish` is one.
-/

namespace LbRpc

/-- `route_map`: the hosts under a modid/cmdid key. -/
abbrev RouteMap := AList fun _ : UInt64 => Finset UInt64

namespace RouteMap

/-- `map[key].insert(value)`. -/
def insertHost (k v : UInt64) (m : RouteMap) : RouteMap :=
  AList.insert k (Insert.insert v ((AList.lookup k m).getD ∅)) m

/-- One row of `RouteData`. -/
def insertRow (m : RouteMap) (r : RouteRow) : RouteMap :=
  m.insertHost (key r.modid.toInt32 r.cmdid.toInt32)
    ((r.serverip.toUInt64 <<< 32) + r.serverport.toInt32.toInt64.toUInt64)

/-- The map of all rows. -/
def ofRows (rows : List RouteRow) : RouteMap := rows.foldl insertRow ∅

end RouteMap

/-- The two maps behind the pointers. -/
inductive MapName
  | a
  | b
  deriving DecidableEq, Repr

structure Route where
  maps : MapName → RouteMap
  dataPointer : MapName
  tempPointer : MapName
  version : ℤ

namespace Route

/-- The map that `get_hosts` reads. -/
def data (r : Route) : RouteMap := r.maps r.dataPointer

/-- What the map that is read holds under a key. -/
def hostsUnder (k : UInt64) (r : Route) : Finset UInt64 := (AList.lookup k r.data).getD ∅

/-- `Route::get_hosts`. -/
def getHosts (modid cmdid : Int32) (r : Route) : Finset UInt64 := r.hostsUnder (key modid cmdid)

/-- `Route::load_version`: 0 for no change, 1 for a new version, -1 for a failure. The
result has no row when the table is empty. -/
def loadVersion (result : Option (Option ℤ)) (r : Route) : ℤ × Route :=
  match result with
  | none => (-1, r)
  | some none => (-1, r)
  | some (some v) => if v = r.version then (0, r) else (1, { r with version := v })

/-- `Route::load_route_data`: the temporary map is cleared before the query. -/
def loadRouteData (result : Option (List RouteRow)) (r : Route) : ℤ × Route :=
  match result with
  | none => (-1, { r with maps := Function.update r.maps r.tempPointer ∅ })
  | some rows => (0, { r with maps := Function.update r.maps r.tempPointer (.ofRows rows) })

/-- `Route::swap`. -/
def swap (r : Route) : Route := { r with dataPointer := r.tempPointer, tempPointer := r.dataPointer }

/-- The key of a changed modid/cmdid. -/
def changeKey (r : ChangeRow) : UInt64 := key r.modid.toInt32 r.cmdid.toInt32

/-- `Route::load_changes`. -/
def loadChanges (result : Option (List ChangeRow)) (changeList : Finset UInt64) : Finset UInt64 :=
  match result with
  | none => changeList
  | some rows => rows.foldl (fun s r => insert (changeKey r) s) changeList

/-- The constructor: `load_version`, then `build_maps`; it exits when a query fails. -/
def new (version : Option (Option ℤ)) (rows : Option (List RouteRow)) : Option Route :=
  let r := loadVersion version ⟨fun _ => ∅, .a, .b, 0⟩
  match rows with
  | none => none
  | some rows =>
    if r.1 = -1 then none
    else some { r.2 with maps := Function.update r.2.maps r.2.dataPointer (.ofRows rows) }

end Route

namespace Route

variable {r : Route}

theorem loadVersion_maps (version : Option (Option ℤ)) (r : Route) :
    (r.loadVersion version).2.maps = r.maps ∧ (r.loadVersion version).2.dataPointer = r.dataPointer ∧
      (r.loadVersion version).2.tempPointer = r.tempPointer := by
  unfold loadVersion
  split
  · exact ⟨rfl, rfl, rfl⟩
  · exact ⟨rfl, rfl, rfl⟩
  · split <;> exact ⟨rfl, rfl, rfl⟩

theorem loadRouteData_pointers (result : Option (List RouteRow)) (r : Route) :
    (r.loadRouteData result).2.dataPointer = r.dataPointer ∧
      (r.loadRouteData result).2.tempPointer = r.tempPointer := by
  cases result <;> exact ⟨rfl, rfl⟩

/-- `load_route_data` leaves the map alone that `get_hosts` reads. -/
theorem loadRouteData_data (hp : r.dataPointer ≠ r.tempPointer) (result : Option (List RouteRow)) :
    (r.loadRouteData result).2.data = r.data := by
  unfold loadRouteData data
  rcases result with _ | rows
  · exact Function.update_of_ne hp _ _
  · exact Function.update_of_ne hp _ _

/-- The constructor points to two maps. -/
theorem new_pointers {version : Option (Option ℤ)} {rows : Option (List RouteRow)}
    (h : Route.new version rows = some r) : r.dataPointer ≠ r.tempPointer := by
  unfold Route.new at h
  rcases rows with _ | rows
  · cases h
  dsimp only at h
  split at h
  · cases h
  · cases h
    dsimp only
    rw [(loadVersion_maps version _).2.1, (loadVersion_maps version _).2.2]
    decide

end Route

/-- Where the thread stands: in front of the statement of this name. -/
inductive Pc
  | removeAll
  | loadVersion
  | loadRouteData
  | swap
  | loadChanges
  | publish (changes : Finset UInt64)
  | removeChanges
  | reload
  | reloadSwap
  deriving DecidableEq

/-- The thread `check_route_changes`. -/
structure Checker where
  route : Route
  pc : Pc
  lastLoadTime : ℤ
  currentTime : ℤ

namespace Checker

/-- The thread starts. -/
def new (route : Route) (now : ℤ) : Checker := ⟨route, .removeAll, now, now⟩

/-- The next statement of `check_route_changes`, when its query succeeds or not. -/
def step (waitTime : ℤ) (ok : Bool) (now : ℤ) (db : Db) (c : Checker) : Checker × Db :=
  match c.pc with
  | .removeAll =>
    ({ c with pc := .loadVersion },
      if ok then { db with routeChange := db.routeChange.deleteAll } else db)
  | .loadVersion =>
    let r := c.route.loadVersion (if ok then some db.routeVersion else none)
    let c := { c with route := r.2, currentTime := now }
    if r.1 = 1 then ({ c with pc := .loadRouteData }, db)
    else if waitTime ≤ now - c.lastLoadTime then ({ c with pc := .reload }, db)
    else (c, db)
  | .loadRouteData =>
    let r := c.route.loadRouteData (if ok then some db.routeData.rows else none)
    -- a failure skips the `swap` only; the changes are loaded, published and removed
    ({ c with route := r.2, pc := if r.1 = 0 then .swap else .loadChanges }, db)
  | .swap =>
    ({ c with route := c.route.swap, pc := .loadChanges, lastLoadTime := c.currentTime }, db)
  | .loadChanges =>
    let changes := Route.loadChanges
      (if ok then some (db.routeChange.upTo c.route.version) else none) ∅
    ({ c with pc := .publish changes }, db)
  | .publish _ => ({ c with pc := .removeChanges }, db)
  | .removeChanges =>
    ({ c with pc := .loadVersion },
      if ok then { db with routeChange := db.routeChange.deleteUpTo c.route.version } else db)
  | .reload =>
    let r := c.route.loadRouteData (if ok then some db.routeData.rows else none)
    ({ c with route := r.2, pc := if r.1 = 0 then .reloadSwap else .loadVersion }, db)
  | .reloadSwap =>
    ({ c with route := c.route.swap, pc := .loadVersion, lastLoadTime := c.currentTime }, db)

variable {c : Checker} (waitTime : ℤ) (ok : Bool) (now : ℤ) (db : Db)

/-- The two maps stay two. -/
theorem step_pointers (h : c.route.dataPointer ≠ c.route.tempPointer) :
    (c.step waitTime ok now db).1.route.dataPointer ≠ (c.step waitTime ok now db).1.route.tempPointer := by
  have hload := Route.loadVersion_maps (if ok then some db.routeVersion else none) c.route
  have hdata := Route.loadRouteData_pointers (if ok then some db.routeData.rows else none) c.route
  unfold step
  split
  · exact h
  · dsimp only
    generalize c.route.loadVersion (if ok then some db.routeVersion else none) = r at hload ⊢
    have hr : r.2.dataPointer ≠ r.2.tempPointer := by rwa [hload.2.1, hload.2.2]
    split
    · exact hr
    · split <;> exact hr
  · dsimp only
    rwa [hdata.1, hdata.2]
  · exact h.symm
  · exact h
  · exact h
  · exact h
  · dsimp only
    rwa [hdata.1, hdata.2]
  · exact h.symm

/-- Only a `swap` changes the map that `get_hosts` reads. -/
theorem step_data (h : c.route.dataPointer ≠ c.route.tempPointer) (hswap : c.pc ≠ .swap)
    (hreload : c.pc ≠ .reloadSwap) : (c.step waitTime ok now db).1.route.data = c.route.data := by
  have hload := Route.loadVersion_maps (if ok then some db.routeVersion else none) c.route
  have hversion : (c.route.loadVersion (if ok then some db.routeVersion else none)).2.data =
      c.route.data := by
    rw [Route.data, Route.data, hload.1, hload.2.1]
  unfold step
  split
  · rfl
  · dsimp only
    generalize c.route.loadVersion (if ok then some db.routeVersion else none) = r at hversion ⊢
    split
    · exact hversion
    · split <;> exact hversion
  · exact Route.loadRouteData_data h _
  · rename_i hpc
    exact absurd hpc hswap
  · rfl
  · rfl
  · rfl
  · exact Route.loadRouteData_data h _
  · rename_i hpc
    exact absurd hpc hreload

end Checker

end LbRpc
