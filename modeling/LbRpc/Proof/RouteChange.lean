import LbRpc.Base.Runs
import LbRpc.Dns.Route

/-!
# Which route changes are announced

Requests of the web console and the thread `check_route_changes` work on the same tables,
one statement at a time and in any order. A request is a `Handler` that goes through its
statements; the history remembers what no table does.

* `Notified`: the pair of a deleted `RouteChange` row was published while a map was
  installed that contains the row's edit.
* `World.removed_notified`: in every run all of whose deletions end a **clean** cycle,
  every deleted row was notified. A cycle is clean when both of its `SELECT`s succeed and
  no row that its `DELETE` matches comes too late for them.
-/

namespace LbRpc

/-- The next statement of a request. -/
inductive Stage
  | data
  | change
  | version
  | done
  deriving DecidableEq, Repr

/-- A request of the web console. -/
structure Handler where
  edit : Edit
  stage : Stage

/-- What `publish` was called with, and the map that `get_hosts` read at that time. -/
structure Publication where
  mods : Finset UInt64
  map : RouteMap
  /-- the edits that were in `RouteData` when the map was loaded, if a `swap` installed it -/
  installed : Option (List ℕ)

/-- What happened so far, as far as no variable of the program tells. -/
structure History where
  /-- the requests whose write of `RouteData` took effect, in order -/
  log : List ℕ
  /-- the request that inserted a row of `RouteChange`, unless it is older than the run -/
  author : ℕ → Option ℕ
  /-- the log at the last `SELECT` of `RouteData` -/
  loaded : List ℕ
  /-- the log of the installed map -/
  installed : Option (List ℕ)
  /-- this cycle's `SELECT` of `RouteData` succeeded -/
  selected : Bool
  /-- this cycle's `SELECT` of `RouteChange` succeeded -/
  listed : Bool
  /-- a row that this cycle's `DELETE` matches came too late for its `SELECT`s -/
  late : Bool
  published : List Publication
  /-- the rows that `remove_changes` deleted -/
  removed : List ChangeRow

/-- The tables, the requests and the checker thread. -/
structure World where
  clock : ℤ
  db : Db
  handlers : List Handler
  checker : Checker
  hist : History

namespace World

/-- One thing that happens. -/
inductive Event
  /-- time goes on -/
  | tick (seconds : ℕ)
  /-- the next statement of a request -/
  | web (i : ℕ)
  /-- the next statement of the checker; a query may fail -/
  | poll (ok : Bool)
  deriving DecidableEq

/-- The checker starts, before any of the requests `edits`. -/
def start (edits : List Edit) (db : Db) (route : Route) (now : ℤ) : World where
  clock := now
  db := db
  handlers := edits.map (⟨·, .data⟩)
  checker := Checker.new route now
  hist := ⟨[], fun _ => none, [], none, false, false, false, [], []⟩

/-- A row that request `i` inserts now is matched by the next `DELETE`, but comes behind the
`SELECT` of `RouteChange`, or its edit came behind the `SELECT` of `RouteData`. -/
def isLate (w : World) (i : ℕ) : Bool :=
  decide (w.clock ≤ w.checker.route.version) &&
    match w.checker.pc with
    | .swap => !w.hist.loaded.contains i
    | .loadChanges => !w.hist.loaded.contains i
    | .publish _ => true
    | .removeChanges => true
    | _ => false

/-- Request `i` writes `RouteData`. -/
def writeData (i : ℕ) (h : Handler) (w : World) : World :=
  { w with
    db := { w.db with routeData := h.edit.write w.db.routeData }
    handlers := w.handlers.set i { h with stage := if h.edit.mod.isSome then .change else .done }
    hist := { w.hist with log := w.hist.log ++ [i] } }

/-- Request `i` inserts its row of `RouteChange`. -/
def insertChange (i : ℕ) (h : Handler) (modid cmdid : UInt32) (w : World) : World :=
  { w with
    db := w.db.insertRouteChange modid cmdid w.clock
    handlers := w.handlers.set i { h with stage := .version }
    hist := { w.hist with
      author := Function.update w.hist.author w.db.routeChange.next (some i)
      late := w.hist.late || w.isLate i } }

/-- Request `i` writes `RouteVersion`. -/
def updateVersion (i : ℕ) (h : Handler) (w : World) : World :=
  { w with
    db := w.db.updateVersion w.clock
    handlers := w.handlers.set i { h with stage := .done } }

/-- The next statement of request `i`. -/
def web (i : ℕ) (h : Handler) (w : World) : World :=
  match h.stage, h.edit.mod with
  | .data, _ => w.writeData i h
  | .change, some (modid, cmdid) => w.insertChange i h modid cmdid
  | .change, none => w
  | .version, _ => w.updateVersion i h
  | .done, _ => w

/-- What a statement of the checker adds to the history. -/
def remember (ok : Bool) (w : World) : History :=
  match w.checker.pc with
  | .removeAll =>
    if ok then { w.hist with removed := w.hist.removed ++ w.db.routeChange.rows } else w.hist
  | .loadVersion => { w.hist with selected := false, listed := false, late := false }
  | .loadRouteData => if ok then { w.hist with loaded := w.hist.log, selected := true } else w.hist
  | .swap => { w.hist with installed := some w.hist.loaded }
  | .loadChanges => { w.hist with listed := ok }
  | .publish changes =>
    { w.hist with
      published := w.hist.published ++ [⟨changes, w.checker.route.data, w.hist.installed⟩] }
  | .removeChanges =>
    if ok then { w.hist with
      removed := w.hist.removed ++ w.db.routeChange.upTo w.checker.route.version } else w.hist
  | .reload => if ok then { w.hist with loaded := w.hist.log } else w.hist
  | .reloadSwap => { w.hist with installed := some w.hist.loaded }

/-- The next statement of the checker. -/
def poll (waitTime : ℤ) (ok : Bool) (w : World) : World :=
  let r := w.checker.step waitTime ok w.clock w.db
  { w with checker := r.1, db := r.2, hist := w.remember ok }

/-- One event; none of them fails as a whole. -/
def step (waitTime : ℤ) (w : World) : Event → Except Empty World
  | .tick seconds => .ok { w with clock := w.clock + seconds }
  | .web i =>
    match w.handlers[i]? with
    | none => .ok w
    | some h => .ok (w.web i h)
  | .poll ok => .ok (w.poll waitTime ok)

/-- `RouteData` after the writes of some requests. -/
def replay (edits : List Edit) (t : RouteTable) (log : List ℕ) : RouteTable :=
  log.foldl (fun t i => match edits[i]? with | none => t | some e => e.write t) t

/-- A map that was loaded after the edits of `log` contains the edit behind a row. -/
def Contains (author : ℕ → Option ℕ) (log : List ℕ) (r : ChangeRow) : Prop :=
  ∀ i, author r.id = some i → i ∈ log

/-- **A row of `RouteChange` was announced**: its pair was in a set passed to `publish`
after a `swap` had installed the map of a `RouteData` with the row's edit. -/
def Notified (edits : List Edit) (t : RouteTable) (w : World) (r : ChangeRow) : Prop :=
  ∃ p ∈ w.hist.published, Route.changeKey r ∈ p.mods ∧ ∃ log, p.installed = some log ∧
    Contains w.hist.author log r ∧ p.map = .ofRows (replay edits t log).rows

/-- **A clean deletion**: when the thread starts there is nothing to delete; later, both
`SELECT`s of the cycle have succeeded and no row that the `DELETE` matches came late. -/
def Clean (_ : List Event) (w : World) : Event → Prop
  | .tick _ => True
  | .web _ => True
  | .poll ok => ok = true →
    (w.checker.pc = .removeAll → w.db.routeChange.rows = []) ∧
    (w.checker.pc = .removeChanges →
      w.hist.selected = true ∧ w.hist.listed = true ∧ w.hist.late = false)

instance (pre : List Event) (w : World) : (e : Event) → Decidable (Clean pre w e)
  | .tick _ => inferInstanceAs (Decidable True)
  | .web _ => inferInstanceAs (Decidable True)
  | .poll ok => inferInstanceAs (Decidable (ok = true →
    (w.checker.pc = .removeAll → w.db.routeChange.rows = []) ∧
    (w.checker.pc = .removeChanges →
      w.hist.selected = true ∧ w.hist.listed = true ∧ w.hist.late = false)))

variable {edits : List Edit} {t : RouteTable} {w : World}

theorem replay_snoc (log : List ℕ) (i : ℕ) {e : Edit} (he : edits[i]? = some e) :
    replay edits t (log ++ [i]) = e.write (replay edits t log) := by
  unfold replay
  rw [List.foldl_append]
  simp only [List.foldl_cons, List.foldl_nil, he]

/-! ## The statements of the checker -/

section Statements

variable {waitTime : ℤ} {ok : Bool}

theorem poll_removeAll (hpc : w.checker.pc = .removeAll) :
    w.poll waitTime ok = { w with
      checker := { w.checker with pc := .loadVersion }
      db := if ok then { w.db with routeChange := w.db.routeChange.deleteAll } else w.db
      hist := if ok then { w.hist with removed := w.hist.removed ++ w.db.routeChange.rows }
        else w.hist } := by
  unfold World.poll Checker.step World.remember
  rw [hpc]

/-- `load_version` changes the version at most, and starts a cycle or does not. -/
theorem poll_loadVersion (hpc : w.checker.pc = .loadVersion) (waitTime : ℤ) (ok : Bool) :
    ∃ v pc, (pc = .loadRouteData ∨ pc = .reload ∨ pc = .loadVersion) ∧
      w.poll waitTime ok = { w with
        checker := { w.checker with
          route := { w.checker.route with version := v }, pc := pc, currentTime := w.clock }
        hist := { w.hist with selected := false, listed := false, late := false } } := by
  obtain ⟨v, hv⟩ : ∃ v, (w.checker.route.loadVersion (if ok then some w.db.routeVersion else none)).2 =
      { w.checker.route with version := v } := by
    unfold Route.loadVersion
    split
    · exact ⟨_, rfl⟩
    · exact ⟨_, rfl⟩
    · split <;> exact ⟨_, rfl⟩
  unfold World.poll Checker.step World.remember
  rw [hpc]
  dsimp only
  rw [hv]
  by_cases h1 : (w.checker.route.loadVersion (if ok then some w.db.routeVersion else none)).1 = 1
  · rw [if_pos h1]
    exact ⟨v, .loadRouteData, Or.inl rfl, rfl⟩
  · rw [if_neg h1]
    by_cases h2 : waitTime ≤ w.clock - w.checker.lastLoadTime
    · rw [if_pos h2]
      exact ⟨v, .reload, Or.inr (Or.inl rfl), rfl⟩
    · rw [if_neg h2]
      exact ⟨v, .loadVersion, Or.inr (Or.inr rfl), rfl⟩

theorem poll_loadRouteData_ok (hpc : w.checker.pc = .loadRouteData) :
    w.poll waitTime true = { w with
      checker := { w.checker with
        route := (w.checker.route.loadRouteData (some w.db.routeData.rows)).2, pc := .swap }
      hist := { w.hist with loaded := w.hist.log, selected := true } } := by
  unfold World.poll Checker.step World.remember
  rw [hpc]
  rfl

theorem poll_loadRouteData_fail (hpc : w.checker.pc = .loadRouteData) :
    w.poll waitTime false = { w with
      checker := { w.checker with
        route := (w.checker.route.loadRouteData none).2, pc := .loadChanges } } := by
  unfold World.poll Checker.step World.remember
  rw [hpc]
  rfl

theorem poll_swap (hpc : w.checker.pc = .swap) :
    w.poll waitTime ok = { w with
      checker := { w.checker with
        route := w.checker.route.swap
        pc := .loadChanges
        lastLoadTime := w.checker.currentTime }
      hist := { w.hist with installed := some w.hist.loaded } } := by
  unfold World.poll Checker.step World.remember
  rw [hpc]

theorem poll_loadChanges (hpc : w.checker.pc = .loadChanges) :
    w.poll waitTime ok = { w with
      checker := { w.checker with
        pc := .publish (Route.loadChanges
          (if ok then some (w.db.routeChange.upTo w.checker.route.version) else none) ∅) }
      hist := { w.hist with listed := ok } } := by
  unfold World.poll Checker.step World.remember
  rw [hpc]

theorem poll_publish {ch : Finset UInt64} (hpc : w.checker.pc = .publish ch) :
    w.poll waitTime ok = { w with
      checker := { w.checker with pc := .removeChanges }
      hist := { w.hist with
        published := w.hist.published ++ [⟨ch, w.checker.route.data, w.hist.installed⟩] } } := by
  unfold World.poll Checker.step World.remember
  rw [hpc]

theorem poll_removeChanges (hpc : w.checker.pc = .removeChanges) :
    w.poll waitTime ok = { w with
      checker := { w.checker with pc := .loadVersion }
      db := if ok then { w.db with
        routeChange := w.db.routeChange.deleteUpTo w.checker.route.version } else w.db
      hist := if ok then { w.hist with
        removed := w.hist.removed ++ w.db.routeChange.upTo w.checker.route.version } else w.hist } := by
  unfold World.poll Checker.step World.remember
  rw [hpc]

theorem poll_reload_ok (hpc : w.checker.pc = .reload) :
    w.poll waitTime true = { w with
      checker := { w.checker with
        route := (w.checker.route.loadRouteData (some w.db.routeData.rows)).2, pc := .reloadSwap }
      hist := { w.hist with loaded := w.hist.log } } := by
  unfold World.poll Checker.step World.remember
  rw [hpc]
  rfl

theorem poll_reload_fail (hpc : w.checker.pc = .reload) :
    w.poll waitTime false = { w with
      checker := { w.checker with
        route := (w.checker.route.loadRouteData none).2, pc := .loadVersion } } := by
  unfold World.poll Checker.step World.remember
  rw [hpc]
  rfl

theorem poll_reloadSwap (hpc : w.checker.pc = .reloadSwap) :
    w.poll waitTime ok = { w with
      checker := { w.checker with
        route := w.checker.route.swap
        pc := .loadVersion
        lastLoadTime := w.checker.currentTime }
      hist := { w.hist with installed := some w.hist.loaded } } := by
  unfold World.poll Checker.step World.remember
  rw [hpc]

end Statements

/-! ## The tables and the requests -/

/-- Every row comes from a request whose write of `RouteData` is in the log, and the log
explains `RouteData`. -/
structure Tables (edits : List Edit) (t : RouteTable) (w : World) : Prop where
  requests : w.handlers.map Handler.edit = edits
  written : ∀ i h, w.handlers[i]? = some h → h.stage ≠ .data → i ∈ w.hist.log
  table : w.db.routeData = replay edits t w.hist.log
  authors : ∀ r ∈ w.db.routeChange.rows, Contains w.hist.author w.hist.log r

theorem tables_start (edits : List Edit) (db : Db) (route : Route) (now : ℤ) :
    Tables edits db.routeData (start edits db route now) where
  requests := by simp [start, Function.comp_def]
  written := by
    intro i h hi hs
    unfold start at hi
    rw [List.getElem?_map] at hi
    obtain ⟨e, -, rfl⟩ := Option.map_eq_some_iff.1 hi
    exact absurd rfl hs
  table := rfl
  authors := fun r _ i hi => by cases hi

theorem requests_set {hs : List Handler} {i : ℕ} {h : Handler} (hi : hs[i]? = some h) (s : Stage) :
    (hs.set i { h with stage := s }).map Handler.edit = hs.map Handler.edit := by
  rw [List.map_set]
  refine List.ext_getElem? fun j => ?_
  rw [List.getElem?_set]
  split
  · rename_i hij
    subst hij
    have hlt : i < hs.length := (List.getElem?_eq_some_iff.1 hi).1
    rw [if_pos (by simpa using hlt), List.getElem?_map, hi]
    rfl
  · rfl

/-- A row keeps its author when another one is inserted. -/
theorem contains_update {author : ℕ → Option ℕ} {log : List ℕ} {r : ChangeRow} {n : ℕ} {a : Option ℕ}
    (hr : r.id < n) : Contains (Function.update author n a) log r ↔ Contains author log r := by
  unfold Contains
  rw [Function.update_of_ne (Nat.ne_of_lt hr)]

theorem contains_new {author : ℕ → Option ℕ} {log : List ℕ} {r : ChangeRow} {i : ℕ} :
    Contains (Function.update author r.id (some i)) log r ↔ i ∈ log := by
  unfold Contains
  rw [Function.update_self]
  constructor
  · exact fun h => h i rfl
  · rintro h j ⟨⟩
    exact h

/-- The stages of the requests after one of them went on. -/
theorem Tables.written_set (h : Tables edits t w) {i : ℕ} {hd : Handler} {s : Stage} {log : List ℕ}
    (hi : i ∈ log) (hsub : ∀ j ∈ w.hist.log, j ∈ log) :
    ∀ j g, (w.handlers.set i { hd with stage := s })[j]? = some g → g.stage ≠ .data → j ∈ log := by
  intro j g hg hs
  rw [List.getElem?_set] at hg
  split at hg
  · rename_i hij
    rw [← hij]; exact hi
  · exact hsub j (h.written j g hg hs)

theorem Tables.writeData (h : Tables edits t w) {i : ℕ} {hd : Handler}
    (hi : w.handlers[i]? = some hd) : Tables edits t (w.writeData i hd) := by
  have hedit : edits[i]? = some hd.edit := by
    rw [← h.requests, List.getElem?_map, hi]
    rfl
  refine ⟨(requests_set hi _).trans h.requests, ?_, ?_, ?_⟩
  · exact h.written_set (List.mem_append_right _ (List.mem_singleton_self i)) fun j hj =>
      List.mem_append_left _ hj
  · show hd.edit.write w.db.routeData = _
    rw [h.table]
    exact (replay_snoc _ _ hedit).symm
  · exact fun r hr j hj => List.mem_append_left _ (h.authors r hr j hj)

theorem Tables.insertChange (h : Tables edits t w) {i : ℕ} {hd : Handler} {modid cmdid : UInt32}
    (hi : w.handlers[i]? = some hd) (hs : hd.stage ≠ .data) :
    Tables edits t (w.insertChange i hd modid cmdid) := by
  have hlog : i ∈ w.hist.log := h.written i hd hi hs
  refine ⟨(requests_set hi _).trans h.requests, h.written_set hlog fun _ hj => hj, h.table, ?_⟩
  intro r hr
  rcases List.mem_append.1 hr with hold | hnew
  · exact (contains_update (w.db.routeChange.fresh r hold)).2 (h.authors r hold)
  · rw [List.mem_singleton.1 hnew]
    exact contains_new.2 hlog

theorem Tables.updateVersion (h : Tables edits t w) {i : ℕ} {hd : Handler}
    (hi : w.handlers[i]? = some hd) (hs : hd.stage ≠ .data) : Tables edits t (w.updateVersion i hd) :=
  ⟨(requests_set hi _).trans h.requests,
    h.written_set (h.written i hd hi hs) fun _ hj => hj, h.table, h.authors⟩

/-- What the statements of a request keep, a request as a whole keeps. -/
theorem web_cases {P : World → Prop} {i : ℕ} {hd : Handler} (h : P w)
    (hdata : P (w.writeData i hd))
    (hchange : ∀ modid cmdid, hd.stage = .change → P (w.insertChange i hd modid cmdid))
    (hversion : hd.stage = .version → P (w.updateVersion i hd)) : P (w.web i hd) := by
  unfold World.web
  split
  · exact hdata
  · exact hchange _ _ ‹_›
  · exact h
  · exact hversion ‹_›
  · exact h

theorem Tables.web (h : Tables edits t w) {i : ℕ} {hd : Handler} (hi : w.handlers[i]? = some hd) :
    Tables edits t (w.web i hd) :=
  web_cases h (h.writeData hi) (fun _ _ hs => h.insertChange hi (by rw [hs]; decide))
    fun hs => h.updateVersion hi (by rw [hs]; decide)

/-- A statement of the checker deletes rows of `RouteChange` at most. -/
theorem checker_db (waitTime : ℤ) (ok : Bool) (now : ℤ) (db : Db) (c : Checker) :
    (c.step waitTime ok now db).2.routeData = db.routeData ∧
      (c.step waitTime ok now db).2.routeChange.next = db.routeChange.next ∧
      ∀ r ∈ (c.step waitTime ok now db).2.routeChange.rows, r ∈ db.routeChange.rows := by
  have hsame : ∀ {d : Db}, d = db → d.routeData = db.routeData ∧
      d.routeChange.next = db.routeChange.next ∧ ∀ r ∈ d.routeChange.rows, r ∈ db.routeChange.rows := by
    rintro d rfl
    exact ⟨rfl, rfl, fun r hr => hr⟩
  unfold Checker.step
  cases c.pc with
  | removeAll =>
    dsimp only
    rcases ok with _ | _
    · exact hsame rfl
    · exact ⟨rfl, rfl, fun r hr => by cases hr⟩
  | loadVersion =>
    dsimp only
    refine hsame ?_
    by_cases h1 : (c.route.loadVersion (if ok = true then some db.routeVersion else none)).1 = 1
    · rw [if_pos h1]
    · rw [if_neg h1]
      by_cases h2 : waitTime ≤ now - c.lastLoadTime
      · rw [if_pos h2]
      · rw [if_neg h2]
  | loadRouteData =>
    dsimp only
    exact hsame rfl
  | swap =>
    dsimp only
    exact hsame rfl
  | loadChanges =>
    dsimp only
    exact hsame rfl
  | publish ch =>
    dsimp only
    exact hsame rfl
  | removeChanges =>
    dsimp only
    rcases ok with _ | _
    · exact hsame rfl
    · exact ⟨rfl, rfl, fun r hr => (List.mem_filter.1 hr).1⟩
  | reload =>
    dsimp only
    exact hsame rfl
  | reloadSwap =>
    dsimp only
    exact hsame rfl

/-- The checker neither edits nor inserts. -/
theorem remember_log (ok : Bool) (w : World) :
    (w.remember ok).log = w.hist.log ∧ (w.remember ok).author = w.hist.author := by
  unfold remember
  split
  · split <;> exact ⟨rfl, rfl⟩
  · exact ⟨rfl, rfl⟩
  · split <;> exact ⟨rfl, rfl⟩
  · exact ⟨rfl, rfl⟩
  · exact ⟨rfl, rfl⟩
  · exact ⟨rfl, rfl⟩
  · split <;> exact ⟨rfl, rfl⟩
  · split <;> exact ⟨rfl, rfl⟩
  · exact ⟨rfl, rfl⟩

theorem Tables.poll (h : Tables edits t w) (waitTime : ℤ) (ok : Bool) :
    Tables edits t (w.poll waitTime ok) := by
  obtain ⟨hdata, -, hrows⟩ := checker_db waitTime ok w.clock w.db w.checker
  obtain ⟨hlog, hauthor⟩ := remember_log ok w
  refine ⟨h.requests, ?_, ?_, ?_⟩
  · show ∀ i g, w.handlers[i]? = some g → g.stage ≠ .data → i ∈ (w.remember ok).log
    rw [hlog]
    exact h.written
  · show (w.checker.step waitTime ok w.clock w.db).2.routeData = replay edits t (w.remember ok).log
    rw [hdata, hlog]
    exact h.table
  · intro r hr
    show Contains (w.remember ok).author (w.remember ok).log r
    rw [hlog, hauthor]
    exact h.authors r (hrows r hr)

/-! ## The two maps -/

/-- The maps are the images of `RouteData` after logs that the history remembers. -/
structure Maps (edits : List Edit) (t : RouteTable) (w : World) : Prop where
  pointers : w.checker.route.dataPointer ≠ w.checker.route.tempPointer
  loaded : w.checker.pc = .swap ∨ w.checker.pc = .reloadSwap →
    w.checker.route.maps w.checker.route.tempPointer = .ofRows (replay edits t w.hist.loaded).rows
  installed : ∀ log, w.hist.installed = some log →
    w.checker.route.data = .ofRows (replay edits t log).rows
  published : ∀ p ∈ w.hist.published, ∀ log, p.installed = some log →
    p.map = .ofRows (replay edits t log).rows

theorem loadRouteData_temp (r : Route) (rows : List RouteRow) :
    (r.loadRouteData (some rows)).2.maps (r.loadRouteData (some rows)).2.tempPointer =
      .ofRows rows :=
  Function.update_self ..

/-- A request leaves the checker's maps alone. -/
theorem Maps.web (h : Maps edits t w) (i : ℕ) (hd : Handler) : Maps edits t (w.web i hd) :=
  web_cases h ⟨h.pointers, h.loaded, h.installed, h.published⟩
    (fun _ _ _ => ⟨h.pointers, h.loaded, h.installed, h.published⟩)
    fun _ => ⟨h.pointers, h.loaded, h.installed, h.published⟩

/-- The maps after a statement that leaves them alone and does not stand before a `swap`. -/
theorem Maps.keep (h : Maps edits t w) {u : World}
    (hdata : u.checker.route.data = w.checker.route.data)
    (hptr : u.checker.route.dataPointer ≠ u.checker.route.tempPointer)
    (hpc : u.checker.pc ≠ .swap ∧ u.checker.pc ≠ .reloadSwap)
    (hinst : u.hist.installed = w.hist.installed) (hpub : u.hist.published = w.hist.published) :
    Maps edits t u where
  pointers := hptr
  loaded := fun hp => by
    rcases hp with hp | hp
    · exact absurd hp hpc.1
    · exact absurd hp hpc.2
  installed := by rw [hinst, hdata]; exact h.installed
  published := by rw [hpub]; exact h.published

/-- A map that is loaded from the table as it is now. -/
theorem Maps.load (h : Maps edits t w) (ht : Tables edits t w) {u : World} {route : Route}
    (hr : route = (w.checker.route.loadRouteData (some w.db.routeData.rows)).2)
    (hroute : u.checker.route = route) (hload : u.hist.loaded = w.hist.log)
    (hinst : u.hist.installed = w.hist.installed) (hpub : u.hist.published = w.hist.published) :
    Maps edits t u where
  pointers := by rw [hroute, hr]; exact h.pointers
  loaded := fun _ => by
    rw [hroute, hr, hload, ← ht.table]
    exact loadRouteData_temp _ _
  installed := by
    rw [hinst, hroute, hr, Route.loadRouteData_data h.pointers]
    exact h.installed
  published := by rw [hpub]; exact h.published

/-- The map that was loaded is installed. -/
theorem Maps.swap (h : Maps edits t w) (hpc : w.checker.pc = .swap ∨ w.checker.pc = .reloadSwap)
    {u : World} (hroute : u.checker.route = w.checker.route.swap)
    (hu : u.checker.pc ≠ .swap ∧ u.checker.pc ≠ .reloadSwap)
    (hinst : u.hist.installed = some w.hist.loaded) (hpub : u.hist.published = w.hist.published) :
    Maps edits t u where
  pointers := by rw [hroute]; exact h.pointers.symm
  loaded := fun hp => by
    rcases hp with hp | hp
    · exact absurd hp hu.1
    · exact absurd hp hu.2
  installed := by
    intro log hlog
    rw [hinst] at hlog
    cases hlog
    rw [hroute]
    exact h.loaded hpc
  published := by rw [hpub]; exact h.published

theorem Maps.poll (h : Maps edits t w) (ht : Tables edits t w) (waitTime : ℤ) (ok : Bool) :
    Maps edits t (w.poll waitTime ok) := by
  have hptr := h.pointers
  cases hpc : w.checker.pc with
  | removeAll =>
    rw [poll_removeAll hpc]
    rcases ok with _ | _ <;> exact h.keep rfl hptr ⟨by simp, by simp⟩ rfl rfl
  | loadVersion =>
    obtain ⟨v, pc, hv, heq⟩ := poll_loadVersion hpc waitTime ok
    rw [heq]
    refine h.keep rfl hptr ?_ rfl rfl
    rcases hv with rfl | rfl | rfl <;> exact ⟨by simp, by simp⟩
  | loadRouteData =>
    rcases ok with _ | _
    · rw [poll_loadRouteData_fail hpc]
      exact h.keep (Route.loadRouteData_data hptr none) hptr ⟨by simp, by simp⟩ rfl rfl
    · rw [poll_loadRouteData_ok hpc]
      exact h.load ht rfl rfl rfl rfl rfl
  | swap =>
    rw [poll_swap hpc]
    exact h.swap (Or.inl hpc) rfl ⟨by simp, by simp⟩ rfl rfl
  | loadChanges =>
    rw [poll_loadChanges hpc]
    exact h.keep rfl hptr ⟨by simp, by simp⟩ rfl rfl
  | publish ch =>
    rw [poll_publish hpc]
    refine ⟨hptr, fun hp => by simp at hp, h.installed, ?_⟩
    intro p hp
    rcases List.mem_append.1 hp with hold | hnew
    · exact h.published p hold
    · rw [List.mem_singleton.1 hnew]
      exact h.installed
  | removeChanges =>
    rw [poll_removeChanges hpc]
    rcases ok with _ | _ <;> exact h.keep rfl hptr ⟨by simp, by simp⟩ rfl rfl
  | reload =>
    rcases ok with _ | _
    · rw [poll_reload_fail hpc]
      exact h.keep (Route.loadRouteData_data hptr none) hptr ⟨by simp, by simp⟩ rfl rfl
    · rw [poll_reload_ok hpc]
      exact h.load ht rfl rfl rfl rfl rfl
  | reloadSwap =>
    rw [poll_reloadSwap hpc]
    exact h.swap (Or.inr hpc) rfl ⟨by simp, by simp⟩ rfl rfl

/-! ## A clean cycle -/

/-- The rows that the next `DELETE` matches have their edits in the map loaded last. -/
def Caught (w : World) : Prop :=
  ∀ r ∈ w.db.routeChange.rows, r.version ≤ w.checker.route.version →
    Contains w.hist.author w.hist.loaded r

/-- The pairs of the rows that the next `DELETE` matches are in a set. -/
def Listed (w : World) (mods : Finset UInt64) : Prop :=
  ∀ r ∈ w.db.routeChange.rows, r.version ≤ w.checker.route.version → Route.changeKey r ∈ mods

/-- A publication of the map loaded last. -/
def Announces (w : World) (p : Publication) : Prop :=
  p ∈ w.hist.published ∧ p.installed = some w.hist.loaded

/-- **What a cycle has achieved** at each statement, as long as it is clean. -/
def Cycle (w : World) : Prop :=
  match w.checker.pc with
  | .loadRouteData => w.hist.selected = false
  | .swap => w.hist.late = false → Caught w
  | .loadChanges => w.hist.selected = true → w.hist.late = false →
    w.hist.installed = some w.hist.loaded ∧ Caught w
  | .publish ch => w.hist.selected = true → w.hist.late = false →
    w.hist.installed = some w.hist.loaded ∧ Caught w ∧ (w.hist.listed = true → Listed w ch)
  | .removeChanges => w.hist.selected = true → w.hist.late = false →
    Caught w ∧ (w.hist.listed = true → ∃ p, Announces w p ∧ Listed w p.mods)
  | _ => True

theorem not_late {i : ℕ} (h : w.isLate i = false) (hv : w.clock ≤ w.checker.route.version) :
    (w.checker.pc = .swap ∨ w.checker.pc = .loadChanges → i ∈ w.hist.loaded) ∧
      (∀ ch, w.checker.pc ≠ .publish ch) ∧ w.checker.pc ≠ .removeChanges := by
  unfold isLate at h
  rw [decide_eq_true hv, Bool.true_and] at h
  refine ⟨?_, ?_, ?_⟩
  · rintro (hp | hp) <;> rw [hp] at h <;> simpa using h
  · intro ch hp
    rw [hp] at h
    cases h
  · intro hp
    rw [hp] at h
    cases h

/-- A row that is inserted in time keeps the cycle clean. -/
theorem caught_insert {i : ℕ} {hd : Handler} {modid cmdid : UInt32} (h : Caught w)
    (hi : w.clock ≤ w.checker.route.version → i ∈ w.hist.loaded) :
    Caught (w.insertChange i hd modid cmdid) := by
  intro r hr hv
  rcases List.mem_append.1 hr with hold | hnew
  · exact (contains_update (w.db.routeChange.fresh r hold)).2 (h r hold hv)
  · rw [List.mem_singleton.1 hnew] at hv ⊢
    exact contains_new.2 (hi hv)

theorem listed_insert {i : ℕ} {hd : Handler} {modid cmdid : UInt32} {mods : Finset UInt64}
    (h : Listed w mods) (hi : ¬ w.clock ≤ w.checker.route.version) :
    Listed (w.insertChange i hd modid cmdid) mods := by
  intro r hr hv
  rcases List.mem_append.1 hr with hold | hnew
  · exact h r hold hv
  · rw [List.mem_singleton.1 hnew] at hv
    exact absurd hv hi

theorem Cycle.insertChange (h : Cycle w) (i : ℕ) (hd : Handler) (modid cmdid : UInt32) :
    Cycle (w.insertChange i hd modid cmdid) := by
  have hsplit : (w.insertChange i hd modid cmdid).hist.late = false →
      w.hist.late = false ∧ w.isLate i = false := fun hl => by
    have hl' : (w.hist.late || w.isLate i) = false := hl
    simpa using hl'
  have hpc' : (w.insertChange i hd modid cmdid).checker.pc = w.checker.pc := rfl
  unfold Cycle at h ⊢
  rw [hpc']
  cases hpc : w.checker.pc with
  | removeAll => trivial
  | loadVersion => trivial
  | reload => trivial
  | reloadSwap => trivial
  | loadRouteData =>
    -- before the `SELECT` of `RouteData` nothing has been achieved
    rw [hpc] at h
    exact h
  | swap =>
    -- before the `swap`: the row is in time when its edit was loaded
    rw [hpc] at h
    intro hl
    obtain ⟨hl1, hl2⟩ := hsplit hl
    exact caught_insert (h hl1) fun hv => (not_late hl2 hv).1 (Or.inl hpc)
  | loadChanges =>
    rw [hpc] at h
    intro hs hl
    obtain ⟨hl1, hl2⟩ := hsplit hl
    obtain ⟨hinst, hc⟩ := h hs hl1
    exact ⟨hinst, caught_insert hc fun hv => (not_late hl2 hv).1 (Or.inr hpc)⟩
  | publish ch =>
    -- behind the `SELECT` of `RouteChange`: the row is in time when no `DELETE` matches it
    rw [hpc] at h
    intro hs hl
    obtain ⟨hl1, hl2⟩ := hsplit hl
    obtain ⟨hinst, hc, hlist⟩ := h hs hl1
    have hnv : ¬ w.clock ≤ w.checker.route.version := fun hv => (not_late hl2 hv).2.1 ch hpc
    exact ⟨hinst, caught_insert hc fun hv => absurd hv hnv, fun hli => listed_insert (hlist hli) hnv⟩
  | removeChanges =>
    rw [hpc] at h
    intro hs hl
    obtain ⟨hl1, hl2⟩ := hsplit hl
    obtain ⟨hc, hlist⟩ := h hs hl1
    have hnv : ¬ w.clock ≤ w.checker.route.version := fun hv => (not_late hl2 hv).2.2 hpc
    refine ⟨caught_insert hc fun hv => absurd hv hnv, fun hli => ?_⟩
    obtain ⟨p, hp', hlist'⟩ := hlist hli
    exact ⟨p, hp', listed_insert hlist' hnv⟩

theorem Cycle.web (h : Cycle w) (i : ℕ) (hd : Handler) : Cycle (w.web i hd) :=
  web_cases h h (fun modid cmdid _ => h.insertChange i hd modid cmdid) fun _ => h

/-- Every pair that the query finds is in the set. -/
theorem mem_loadChanges {rows : List ChangeRow} {r : ChangeRow} (hr : r ∈ rows) (s : Finset UInt64) :
    Route.changeKey r ∈ Route.loadChanges (some rows) s := by
  have hmono : ∀ (rows : List ChangeRow) (s : Finset UInt64) (k : UInt64), k ∈ s →
      k ∈ Route.loadChanges (some rows) s := by
    intro rows
    induction rows with
    | nil => exact fun s k hk => hk
    | cons q rows ih => exact fun s k hk => ih _ k (Finset.mem_insert_of_mem hk)
  induction rows generalizing s with
  | nil => cases hr
  | cons q rows ih =>
    rcases List.mem_cons.1 hr with rfl | hr
    · exact hmono rows _ _ (Finset.mem_insert_self _ _)
    · exact ih hr _

theorem Cycle.poll (h : Cycle w) (ht : Tables edits t w) (waitTime : ℤ) (ok : Bool) :
    Cycle (w.poll waitTime ok) := by
  unfold Cycle at h
  cases hpc : w.checker.pc with
  | removeAll =>
    rw [poll_removeAll hpc]
    trivial
  | loadVersion =>
    obtain ⟨v, pc, hv, heq⟩ := poll_loadVersion hpc waitTime ok
    rw [heq]
    rcases hv with rfl | rfl | rfl
    · exact rfl
    · trivial
    · trivial
  | loadRouteData =>
    rw [hpc] at h
    dsimp only at h
    rcases ok with _ | _
    · -- the cycle goes on, but it has selected nothing
      rw [poll_loadRouteData_fail hpc]
      intro hs
      have hs' : w.hist.selected = true := hs
      rw [h] at hs'
      cases hs'
    · -- whoever has inserted a row by now has written `RouteData` before
      rw [poll_loadRouteData_ok hpc]
      exact fun _ r hr _ => ht.authors r hr
  | swap =>
    -- the map loaded last is the installed one now
    rw [hpc] at h
    dsimp only at h
    rw [poll_swap hpc]
    exact fun _ hl => ⟨rfl, h hl⟩
  | loadChanges =>
    -- the `SELECT` and the later `DELETE` match the same rows
    rw [hpc] at h
    dsimp only at h
    rw [poll_loadChanges hpc]
    intro hs hl
    obtain ⟨hinst, hc⟩ := h hs hl
    refine ⟨hinst, hc, ?_⟩
    intro hok r hr hv
    have hok' : ok = true := hok
    rw [hok', if_pos rfl]
    exact mem_loadChanges (List.mem_filter.2 ⟨hr, decide_eq_true hv⟩) ∅
  | publish ch =>
    rw [hpc] at h
    dsimp only at h
    rw [poll_publish hpc]
    intro hs hl
    obtain ⟨hinst, hc, hlist⟩ := h hs hl
    have hnew : (⟨ch, w.checker.route.data, w.hist.installed⟩ : Publication) ∈
        w.hist.published ++ [⟨ch, w.checker.route.data, w.hist.installed⟩] :=
      List.mem_append_right _ (List.mem_singleton_self _)
    exact ⟨hc, fun hli => ⟨_, ⟨hnew, hinst⟩, hlist hli⟩⟩
  | removeChanges =>
    rw [poll_removeChanges hpc]
    trivial
  | reload =>
    rcases ok with _ | _
    · rw [poll_reload_fail hpc]
      trivial
    · rw [poll_reload_ok hpc]
      trivial
  | reloadSwap =>
    rw [poll_reloadSwap hpc]
    trivial

/-- A clean cycle stands before its `DELETE` with every matching row announced. -/
theorem Cycle.announced (h : Cycle w) (hpc : w.checker.pc = .removeChanges)
    (hs : w.hist.selected = true) (hli : w.hist.listed = true) (hl : w.hist.late = false) :
    ∃ p, Announces w p ∧ ∀ r ∈ w.db.routeChange.upTo w.checker.route.version,
      Route.changeKey r ∈ p.mods ∧ Contains w.hist.author w.hist.loaded r := by
  unfold Cycle at h
  rw [hpc] at h
  obtain ⟨hc, hlist⟩ := h hs hl
  obtain ⟨p, hp, hmods⟩ := hlist hli
  refine ⟨p, hp, fun r hr => ?_⟩
  obtain ⟨hmem, hv⟩ := List.mem_filter.1 hr
  have hv' : r.version ≤ w.checker.route.version := of_decide_eq_true hv
  exact ⟨hmods r hmem hv', hc r hmem hv'⟩

/-! ## Deleted rows -/

/-- The deleted rows were announced, and no later row takes their key. -/
structure Removed (w : World) : Prop where
  old : ∀ r ∈ w.hist.removed, r.id < w.db.routeChange.next
  announced : ∀ r ∈ w.hist.removed, ∃ p ∈ w.hist.published, Route.changeKey r ∈ p.mods ∧
    ∃ log, p.installed = some log ∧ Contains w.hist.author log r

/-- A statement that deletes nothing, and publishes at most. -/
theorem Removed.keep (h : Removed w) {u : World} (hnext : u.db.routeChange.next = w.db.routeChange.next)
    (hauthor : u.hist.author = w.hist.author) (hrem : u.hist.removed = w.hist.removed)
    (hpub : ∀ p ∈ w.hist.published, p ∈ u.hist.published) : Removed u := by
  refine ⟨?_, ?_⟩
  · rw [hrem, hnext]; exact h.old
  · rw [hrem, hauthor]
    intro r hr
    obtain ⟨p, hp, hrest⟩ := h.announced r hr
    exact ⟨p, hpub p hp, hrest⟩

theorem Removed.web (h : Removed w) (i : ℕ) (hd : Handler) : Removed (w.web i hd) := by
  refine web_cases h (h.keep rfl rfl rfl fun _ hp => hp) ?_ fun _ => h.keep rfl rfl rfl fun _ hp => hp
  intro modid cmdid _
  -- the new row takes a key that no deleted row had
  refine ⟨fun r hr => Nat.lt_succ_of_lt (h.old r hr), fun r hr => ?_⟩
  obtain ⟨p, hp, hmem, log, hinst, hc⟩ := h.announced r hr
  exact ⟨p, hp, hmem, log, hinst, (contains_update (h.old r hr)).2 hc⟩

/-- **A clean deletion removes announced rows only.** -/
theorem Removed.poll (h : Removed w) (hc : Cycle w) {pre : List Event} {ok : Bool}
    (hclean : Clean pre w (.poll ok)) (waitTime : ℤ) : Removed (w.poll waitTime ok) := by
  cases hpc : w.checker.pc with
  | removeAll =>
    rw [poll_removeAll hpc]
    rcases ok with _ | _
    · exact h.keep rfl rfl rfl fun _ hp => hp
    · -- a clean start finds no row to delete
      refine h.keep rfl rfl ?_ fun _ hp => hp
      show w.hist.removed ++ w.db.routeChange.rows = w.hist.removed
      rw [(hclean rfl).1 hpc, List.append_nil]
  | loadVersion =>
    obtain ⟨v, pc, hv, heq⟩ := poll_loadVersion hpc waitTime ok
    rw [heq]
    exact h.keep rfl rfl rfl fun _ hp => hp
  | loadRouteData =>
    rcases ok with _ | _
    · rw [poll_loadRouteData_fail hpc]
      exact h.keep rfl rfl rfl fun _ hp => hp
    · rw [poll_loadRouteData_ok hpc]
      exact h.keep rfl rfl rfl fun _ hp => hp
  | swap =>
    rw [poll_swap hpc]
    exact h.keep rfl rfl rfl fun _ hp => hp
  | loadChanges =>
    rw [poll_loadChanges hpc]
    exact h.keep rfl rfl rfl fun _ hp => hp
  | publish ch =>
    rw [poll_publish hpc]
    exact h.keep rfl rfl rfl fun _ hp => List.mem_append_left _ hp
  | removeChanges =>
    rw [poll_removeChanges hpc]
    rcases ok with _ | _
    · exact h.keep rfl rfl rfl fun _ hp => hp
    · -- the rows of this `DELETE` join those of the earlier ones
      obtain ⟨hsel, hli, hlate⟩ := (hclean rfl).2 hpc
      obtain ⟨p, ⟨hp, hinst⟩, hall⟩ := hc.announced hpc hsel hli hlate
      refine ⟨fun r hr => ?_, fun r hr => ?_⟩
      · rcases List.mem_append.1 hr with hold | hnew
        · exact h.old r hold
        · exact w.db.routeChange.fresh r (List.mem_filter.1 hnew).1
      · rcases List.mem_append.1 hr with hold | hnew
        · exact h.announced r hold
        · obtain ⟨hmem, hcont⟩ := hall r hnew
          exact ⟨p, hp, hmem, w.hist.loaded, hinst, hcont⟩
  | reload =>
    rcases ok with _ | _
    · rw [poll_reload_fail hpc]
      exact h.keep rfl rfl rfl fun _ hp => hp
    · rw [poll_reload_ok hpc]
      exact h.keep rfl rfl rfl fun _ hp => hp
  | reloadSwap =>
    rw [poll_reloadSwap hpc]
    exact h.keep rfl rfl rfl fun _ hp => hp

/-! ## Runs -/

/-- What holds along every clean run. -/
structure Clear (edits : List Edit) (t : RouteTable) (w : World) : Prop where
  tables : Tables edits t w
  maps : Maps edits t w
  cycle : Cycle w
  removed : Removed w

theorem clear_start {route : Route} (hptr : route.dataPointer ≠ route.tempPointer)
    (edits : List Edit) (db : Db) (now : ℤ) :
    Clear edits db.routeData (start edits db route now) where
  tables := tables_start edits db route now
  maps := {
    pointers := hptr
    loaded := fun hp => by rcases hp with hp | hp <;> cases hp
    installed := fun _ hi => by cases hi
    published := fun _ hp => by cases hp }
  cycle := trivial
  removed := {
    old := fun _ hr => by cases hr
    announced := fun _ hr => by cases hr }

/-- Requests and clean statements of the checker keep it, and none fails. -/
theorem Clear.step (h : Clear edits t w) {pre : List Event} {e : Event} (he : Clean pre w e)
    (waitTime : ℤ) : ∃ u, w.step waitTime e = .ok u ∧ Clear edits t u := by
  rcases e with seconds | i | ok
  · refine ⟨_, rfl, ⟨h.tables.requests, h.tables.written, h.tables.table, h.tables.authors⟩,
      ⟨h.maps.pointers, h.maps.loaded, h.maps.installed, h.maps.published⟩,
      h.cycle, h.removed.old, h.removed.announced⟩
  · unfold World.step
    dsimp only
    rcases hi : w.handlers[i]? with _ | hd
    · exact ⟨w, rfl, h⟩
    · exact ⟨_, rfl, h.tables.web hi, h.maps.web i hd, h.cycle.web i hd, h.removed.web i hd⟩
  · exact ⟨_, rfl, h.tables.poll waitTime ok, h.maps.poll h.tables waitTime ok,
      h.cycle.poll h.tables waitTime ok, h.removed.poll h.cycle he waitTime⟩

theorem Clear.notified (h : Clear edits t w) : ∀ r ∈ w.hist.removed, Notified edits t w r := by
  intro r hr
  obtain ⟨p, hp, hmem, log, hinst, hc⟩ := h.removed.announced r hr
  exact ⟨p, hp, hmem, log, hinst, hc, h.maps.published p hp log hinst⟩

/-- **No notification is lost in a clean run.** From the start of the checker, under every
interleaving with any number of requests and every outcome of the queries, whenever all
deletions are clean, every deleted row of `RouteChange` was announced. -/
theorem removed_notified (waitTime : ℤ) (edits : List Edit) (db : Db) (now : ℤ)
    (version : Option (Option ℤ)) (rows : Option (List RouteRow)) {route : Route}
    (hnew : Route.new version rows = some route) (es : List Event)
    (hclean : Runs.Along (step waitTime) Clean (start edits db route now) es) :
    Runs.Always (step waitTime) (fun _ w => ∀ r ∈ w.hist.removed, Notified edits db.routeData w r)
      (start edits db route now) es := by
  have hclear : Runs.Always (step waitTime) (fun _ w => Clear edits db.routeData w)
      (start edits db route now) es := by
    refine Runs.always_of_step (clear_start (Route.new_pointers hnew) edits db now) ?_
    intro pre e hpre w hw h
    exact h.step (hclean pre e hpre w hw) waitTime
  exact hclear.imp fun _ _ => Clear.notified

/-- Empty tables. -/
def emptyDb : Db := ⟨⟨[], 0, fun _ h => by cases h⟩, some 0, ⟨[], 0, fun _ h => by cases h⟩⟩

/-- What the constructor makes of them. -/
def emptyRoute : Route := ⟨Function.update (fun _ => ∅) .a ∅, .a, .b, 0⟩

/-- One request goes through its statements, and the checker through one cycle; `ok` tells
whether its `SELECT` of `RouteData` succeeds. -/
def oneEdit (ok : Bool) : List Event :=
  [.poll true, .web 0, .web 0, .web 0, .poll true, .poll ok] ++
    (if ok then [.poll true] else []) ++ [.poll true, .poll true, .poll true]

theorem removed_notified_oneEdit :
    Runs.Always (step 10)
      (fun _ w => ∀ r ∈ w.hist.removed, Notified [.add 1 1 0 80] emptyDb.routeData w r)
      (start [.add 1 1 0 80] emptyDb emptyRoute 100) (oneEdit true) := by
  have hnew : Route.new (some (some 0)) (some []) = some emptyRoute := rfl
  have hcheck : Runs.check (step 10) (fun w e => decide (Clean [] w e))
      (start [.add 1 1 0 80] emptyDb emptyRoute 100) (oneEdit true) = true := by decide +kernel
  exact removed_notified 10 _ emptyDb 100 _ _ hnew (oneEdit true)
    (Runs.along_of_check hcheck fun _ _ _ h => of_decide_eq_true h)

/-- The `SELECT` of `RouteData` fails, and the row is deleted all the same. -/
theorem removed_notified_fails :
    ¬ Runs.Always (step 10)
      (fun _ w => ∀ r ∈ w.hist.removed, Notified [.add 1 1 0 80] emptyDb.routeData w r)
      (start [.add 1 1 0 80] emptyDb emptyRoute 100) (oneEdit false) := by
  have hrun : (Runs.run (step 10) (start [.add 1 1 0 80] emptyDb emptyRoute 100) (oneEdit false)).map
      (fun w => (w.hist.removed, w.hist.published.map (·.installed))) =
        .ok ([⟨0, 1, 1, 100⟩], [none]) := by decide +kernel
  intro hall
  obtain ⟨w, hw, hP⟩ := hall _ (List.prefix_refl _)
  rw [hw] at hrun
  obtain ⟨hrem, hpub⟩ := Prod.mk.inj (Except.ok.inj hrun)
  obtain ⟨p, hp, -, log, hinst, -⟩ := hP ⟨0, 1, 1, 100⟩ (by rw [hrem]; simp)
  have hmem : p.installed ∈ w.hist.published.map (·.installed) := List.mem_map_of_mem hp
  rw [hpub, hinst] at hmem
  simp at hmem

end World

end LbRpc
