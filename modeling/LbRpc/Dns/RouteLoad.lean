import LbRpc.Dns.Route

/-!
# Loading the routes, row by row

`Route::load_route_data` clears the temporary map, queries, stores the result and inserts one
row after the other, all without a lock; `swap` and `get_hosts` take `map_lock_`. Here the
thread `check_route_changes` stops in front of each of these statements, and calls of
`get_hosts` come at any moment. The results of the queries are part of the events.

* `RouteThread.step`: one statement of the thread.
* `RouteThread.load_ok`, `RouteThread.load_fail`: a load taken as a whole is
  `Route.loadRouteData`.
-/

namespace LbRpc

/-- Where `load_route_data` stands. -/
inductive LoadPc
  | clear
  | query
  /-- in front of `mysql_store_result`, for the rows that the query found -/
  | store (rows : List RouteRow)
  /-- in the loop over the rows, some of them left -/
  | fill (rows : List RouteRow)
  deriving DecidableEq, Repr

namespace Route

/-- The map behind `temp_pointer_`. -/
def temp (r : Route) : RouteMap := r.maps r.tempPointer

/-- A write of the map behind `temp_pointer_`. -/
def setTemp (m : RouteMap) (r : Route) : Route :=
  { r with maps := Function.update r.maps r.tempPointer m }

variable {r : Route} {m m' : RouteMap}

@[simp] theorem temp_setTemp : (r.setTemp m).temp = m := Function.update_self ..

@[simp] theorem setTemp_setTemp : (r.setTemp m).setTemp m' = r.setTemp m' := by
  unfold setTemp
  rw [Function.update_idem]

@[simp] theorem dataPointer_setTemp : (r.setTemp m).dataPointer = r.dataPointer := rfl

@[simp] theorem tempPointer_setTemp : (r.setTemp m).tempPointer = r.tempPointer := rfl

theorem data_setTemp (h : r.dataPointer ≠ r.tempPointer) : (r.setTemp m).data = r.data :=
  Function.update_of_ne h _ _

/-- The constructor builds the map of its `SELECT`. -/
theorem new_data {version : Option (Option ℤ)} {rows : List RouteRow}
    (h : Route.new version (some rows) = some r) : r.data = .ofRows rows := by
  unfold Route.new at h
  dsimp only at h
  split at h
  · cases h
  · obtain rfl := Option.some.inj h
    exact Function.update_self ..

end Route

namespace RouteMap

/-- One row more. -/
theorem ofRows_snoc (rows : List RouteRow) (r : RouteRow) :
    ofRows (rows ++ [r]) = (ofRows rows).insertRow r := by
  unfold ofRows
  rw [List.foldl_append]
  rfl

end RouteMap

/-- `load_route_data` returns, and the thread goes on. -/
def Checker.loaded (ret : ℤ) (c : Checker) : Checker :=
  { c with pc :=
    match c.pc with
    | .loadRouteData => if ret = 0 then .swap else .loadChanges
    | .reload => if ret = 0 then .reloadSwap else .loadVersion
    | pc => pc }

/-- The thread `check_route_changes`, and its place in `load_route_data`. -/
structure RouteThread where
  checker : Checker
  load : LoadPc

namespace RouteThread

/-- The thread calls `load_route_data`. -/
def Loading (t : RouteThread) : Prop := t.checker.pc = .loadRouteData ∨ t.checker.pc = .reload

instance (t : RouteThread) : Decidable t.Loading := inferInstanceAs (Decidable (_ ∨ _))

/-- A write of the temporary map. -/
def setTemp (m : RouteMap) (t : RouteThread) : RouteThread :=
  { t with checker := { t.checker with route := t.checker.route.setTemp m } }

/-- `load_route_data` returns `ret`. -/
def returns (ret : ℤ) (t : RouteThread) : RouteThread := ⟨t.checker.loaded ret, .clear⟩

/-- The next statement of `load_route_data`. -/
def loadStep (ok : Bool) (db : Db) (t : RouteThread) : RouteThread :=
  match t.load with
  | .clear => { t.setTemp ∅ with load := .query }
  | .query => if ok then { t with load := .store db.routeData.rows } else t.returns (-1)
  | .store rows => if ok then { t with load := .fill rows } else t.returns (-1)
  | .fill [] => t.returns 0
  | .fill (r :: rows) => { t.setTemp (t.checker.route.temp.insertRow r) with load := .fill rows }

/-- The next statement of the thread. -/
def step (waitTime : ℤ) (ok : Bool) (now : ℤ) (db : Db) (t : RouteThread) : RouteThread :=
  if t.Loading then t.loadStep ok db
  else { t with checker := (t.checker.step waitTime ok now db).1 }

variable {t : RouteThread} {waitTime now : ℤ} {ok : Bool} {db : Db}

theorem step_loading (h : t.Loading) : t.step waitTime ok now db = t.loadStep ok db := if_pos h

theorem step_other (h : ¬ t.Loading) :
    t.step waitTime ok now db = { t with checker := (t.checker.step waitTime ok now db).1 } := if_neg h

/-- The whole of `load_route_data`, as the thread is modelled with one statement for it. -/
theorem checker_step_loading (h : t.Loading) : (t.checker.step waitTime ok now db).1 =
    ((t.setTemp (if ok then .ofRows db.routeData.rows else ∅)).checker.loaded (if ok then 0 else -1)) := by
  unfold Checker.step Checker.loaded setTemp
  cases ok <;> rcases h with h | h <;> rw [h] <;> rfl

/-- The loop over the rows. -/
theorem iterate_fill (waitTime now : ℤ) (db : Db) : ∀ (left done : List RouteRow) (t : RouteThread), t.Loading →
    (step waitTime true now db)^[left.length + 1] { t.setTemp (.ofRows done) with load := .fill left } =
      (t.setTemp (.ofRows (done ++ left))).returns 0 := by
  intro left
  induction left with
  | nil =>
    intro done t ht
    rw [List.append_nil]
    exact step_loading (t := { t.setTemp (.ofRows done) with load := .fill [] }) ht
  | cons r left ih =>
    intro done t ht
    have hstep : step waitTime true now db { t.setTemp (.ofRows done) with load := .fill (r :: left) } =
        { t.setTemp (.ofRows (done ++ [r])) with load := .fill left } := by
      rw [step_loading (t := { t.setTemp (.ofRows done) with load := .fill (r :: left) }) ht,
        RouteMap.ofRows_snoc]
      unfold loadStep setTemp
      dsimp only
      rw [Route.temp_setTemp, Route.setTemp_setTemp]
    rw [List.length_cons, Function.iterate_succ_apply, hstep, ih _ t ht, List.append_assoc]
    rfl

/-- **A load that succeeds** is `Route.loadRouteData`, when nothing comes between its
statements. -/
theorem load_ok (ht : t.Loading) (hc : t.load = .clear) :
    (step waitTime true now db)^[db.routeData.rows.length + 4] t =
      ⟨(t.checker.step waitTime true now db).1, .clear⟩ := by
  obtain ⟨c, load⟩ := t
  obtain rfl : load = .clear := hc
  have h1 : step waitTime true now db ⟨c, .clear⟩ = { setTemp ∅ ⟨c, .clear⟩ with load := .query } :=
    step_loading ht
  have h2 : step waitTime true now db { setTemp ∅ ⟨c, .clear⟩ with load := .query } =
      { setTemp ∅ ⟨c, .clear⟩ with load := .store db.routeData.rows } :=
    step_loading (t := { setTemp ∅ ⟨c, .clear⟩ with load := .query }) ht
  have h3 : step waitTime true now db { setTemp ∅ ⟨c, .clear⟩ with load := .store db.routeData.rows } =
      { setTemp (.ofRows []) ⟨c, .clear⟩ with load := .fill db.routeData.rows } :=
    step_loading (t := { setTemp ∅ ⟨c, .clear⟩ with load := .store db.routeData.rows }) ht
  have hfill := iterate_fill waitTime now db db.routeData.rows [] ⟨c, .clear⟩ ht
  rw [show db.routeData.rows.length + 4 = (db.routeData.rows.length + 1) + 1 + 1 + 1 from rfl,
    Function.iterate_succ_apply, Function.iterate_succ_apply, Function.iterate_succ_apply, h1, h2, h3,
    hfill, checker_step_loading ht]
  rfl

/-- **A load whose query fails** is `Route.loadRouteData` too. -/
theorem load_fail (ht : t.Loading) (hc : t.load = .clear) :
    step waitTime false now db (step waitTime ok now db t) =
      ⟨(t.checker.step waitTime false now db).1, .clear⟩ := by
  obtain ⟨c, load⟩ := t
  obtain rfl : load = .clear := hc
  have h1 : step waitTime ok now db ⟨c, .clear⟩ = { setTemp ∅ ⟨c, .clear⟩ with load := .query } :=
    step_loading ht
  rw [h1, step_loading (t := { setTemp ∅ ⟨c, .clear⟩ with load := .query }) ht, checker_step_loading ht]
  rfl

end RouteThread

end LbRpc
