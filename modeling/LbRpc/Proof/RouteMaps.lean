import LbRpc.Dns.RouteLoad

/-!
# What `get_hosts` reads while the routes are loaded

The thread `check_route_changes` works on the temporary map without a lock, and calls of
`get_hosts` come between any two of its statements. Each query has any result.

* `Intact`: the two pointers differ, `get_hosts` reads the map of the last `SELECT` that was
  swapped in, and the temporary map is as far as the load has come.
* `giveUp_answers`: behind a load that fails, every `get_hosts` answers as if the load had
  done nothing at all.
* `maps_intact`: both, in every run.
-/

namespace LbRpc

/-- The thread, and what no variable of the program tells. -/
structure RouteService where
  thread : RouteThread
  /-- the complete results of `SELECT * FROM RouteData`, that of `build_maps` first -/
  selected : List (List RouteRow)
  /-- the last of them -/
  latest : List RouteRow
  /-- the one whose map is behind `data_pointer_` -/
  installed : List RouteRow
  /-- what the calls of `get_hosts` returned -/
  answers : List (Finset UInt64)

namespace RouteService

/-- One thing that happens. -/
inductive Event
  /-- the next statement of the thread; a query succeeds or not, and finds these tables -/
  | thread (ok : Bool) (now : ℤ) (db : Db)
  /-- a call of `get_hosts` -/
  | getHosts (modid cmdid : Int32)

def route (s : RouteService) : Route := s.thread.checker.route

/-- The thread starts with the maps of the constructor. -/
def start (route : Route) (rows : List RouteRow) (now : ℤ) : RouteService :=
  ⟨⟨Checker.new route now, .clear⟩, [rows], rows, rows, []⟩

/-- What a statement of the thread adds to the history. -/
def remember (ok : Bool) (s : RouteService) : RouteService :=
  match s.thread.checker.pc, s.thread.load with
  | .swap, _ => { s with installed := s.latest }
  | .reloadSwap, _ => { s with installed := s.latest }
  | _, .store rows => if ok then { s with selected := s.selected ++ [rows], latest := rows } else s
  | _, _ => s

def step (waitTime : ℤ) (s : RouteService) : Event → RouteService
  | .thread ok now db => { s.remember ok with thread := s.thread.step waitTime ok now db }
  | .getHosts modid cmdid => { s with answers := s.answers ++ [s.route.getHosts modid cmdid] }

def run (waitTime : ℤ) (s : RouteService) (es : List Event) : RouteService := es.foldl (step waitTime) s

/-- How far a load has come, for the result `latest` and the temporary map. -/
def LoadPc.Holds (latest : List RouteRow) (temp : RouteMap) : LoadPc → Prop
  | .clear => True
  | .query => temp = ∅
  | .store _ => temp = ∅
  | .fill left => ∃ done, latest = done ++ left ∧ temp = .ofRows done

/-- **What every state satisfies.** -/
structure Intact (s : RouteService) : Prop where
  pointers : s.route.dataPointer ≠ s.route.tempPointer
  data : s.route.data = .ofRows s.installed
  installed : s.installed ∈ s.selected
  latest : s.latest ∈ s.selected
  load : LoadPc.Holds s.latest s.route.temp s.thread.load
  outside : ¬ s.thread.Loading → s.thread.load = .clear
  swap : s.thread.checker.pc = .swap ∨ s.thread.checker.pc = .reloadSwap →
    s.route.temp = .ofRows s.latest

end RouteService

/-! ## The statements outside `load_route_data` -/

theorem Route.loadVersion_version (result : Option (Option ℤ)) (old : ℤ) : ∃ ret v, ∀ r : Route,
    r.version = old → r.loadVersion result = (ret, { r with version := v }) := by
  rcases result with _ | _ | v
  · exact ⟨-1, old, fun r hr => by rw [← hr]; rfl⟩
  · exact ⟨-1, old, fun r hr => by rw [← hr]; rfl⟩
  · by_cases hv : v = old
    · exact ⟨0, old, fun r hr => by subst hr; exact if_pos hv⟩
    · exact ⟨1, v, fun r hr => by subst hr; exact if_neg hv⟩

/-- A statement that neither loads nor swaps changes the version at most, and is not followed
by a `swap`. The maps do not matter for it. -/
theorem Checker.step_outside {c : Checker} (hload : c.pc ≠ .loadRouteData) (hreload : c.pc ≠ .reload)
    (hswap : c.pc ≠ .swap) (hreswap : c.pc ≠ .reloadSwap) (waitTime : ℤ) (ok : Bool) (now : ℤ) (db : Db) :
    ∃ v pc time, pc ≠ .swap ∧ pc ≠ .reloadSwap ∧ ∀ r : Route, r.version = c.route.version →
      (({ c with route := r } : Checker).step waitTime ok now db).1 =
        { c with route := { r with version := v }, pc := pc, currentTime := time } := by
  obtain ⟨route, pc, last, current⟩ := c
  cases pc with
  | loadRouteData => exact absurd rfl hload
  | reload => exact absurd rfl hreload
  | swap => exact absurd rfl hswap
  | reloadSwap => exact absurd rfl hreswap
  | removeAll =>
    exact ⟨route.version, .loadVersion, current, by decide, by decide, fun r hr => by rw [← hr]; rfl⟩
  | loadChanges =>
    exact ⟨route.version, .publish (Route.loadChanges
      (if ok then some (db.routeChange.upTo route.version) else none) ∅), current, nofun, nofun,
      fun r hr => by rw [← hr]; rfl⟩
  | publish changes =>
    exact ⟨route.version, .removeChanges, current, by decide, by decide, fun r hr => by rw [← hr]; rfl⟩
  | removeChanges =>
    exact ⟨route.version, .loadVersion, current, by decide, by decide, fun r hr => by rw [← hr]; rfl⟩
  | loadVersion =>
    -- a new version, a reload because of the time, or neither: none of them is a `swap`
    obtain ⟨ret, v, hv⟩ := Route.loadVersion_version (if ok then some db.routeVersion else none) route.version
    by_cases h1 : ret = 1
    · refine ⟨v, .loadRouteData, now, by decide, by decide, fun r hr => ?_⟩
      unfold step
      dsimp only
      rw [hv r hr, if_pos h1]
    · by_cases h2 : waitTime ≤ now - last
      · refine ⟨v, .reload, now, by decide, by decide, fun r hr => ?_⟩
        unfold step
        dsimp only
        rw [hv r hr, if_neg h1, if_pos h2]
      · refine ⟨v, .loadVersion, now, by decide, by decide, fun r hr => ?_⟩
        unfold step
        dsimp only
        rw [hv r hr, if_neg h1, if_neg h2]

namespace RouteService

/-! ## The map behind `data_pointer_` -/

variable {s t : RouteService} {waitTime now : ℤ} {ok : Bool} {db : Db}

theorem intact_start {version : Option (Option ℤ)} {rows : List RouteRow} {route : Route}
    (hnew : Route.new version (some rows) = some route) (now : ℤ) : Intact (start route rows now) where
  pointers := Route.new_pointers hnew
  data := Route.new_data hnew
  installed := List.mem_singleton.2 rfl
  latest := List.mem_singleton.2 rfl
  load := trivial
  outside := fun _ => rfl
  swap := by rintro (h | h) <;> cases h

theorem not_swap (hl : s.thread.Loading) :
    ¬ (s.thread.checker.pc = .swap ∨ s.thread.checker.pc = .reloadSwap) := by
  rintro (h | h) <;> rcases hl with hl | hl <;> rw [h] at hl <;> cases hl

/-- Behind a failure there is no `swap`. -/
theorem loaded_pc (hl : s.thread.Loading) {ret : ℤ} (h0 : ret ≠ 0) :
    (s.thread.checker.loaded ret).pc ≠ .swap ∧ (s.thread.checker.loaded ret).pc ≠ .reloadSwap := by
  unfold Checker.loaded
  rcases hl with hl | hl <;> rw [hl] <;> dsimp only <;> rw [if_neg h0] <;> decide

/-- `load_route_data` returns, with the map of the whole result if it returns 0. -/
theorem Intact.returns (h : Intact s) (hl : s.thread.Loading) {ret : ℤ}
    (hret : ret = 0 → s.route.temp = .ofRows s.latest) :
    Intact { s with thread := s.thread.returns ret } where
  pointers := h.pointers
  data := h.data
  installed := h.installed
  latest := h.latest
  load := trivial
  outside := fun _ => rfl
  swap := by
    intro hpc
    refine hret ?_
    by_contra h0
    exact absurd hpc (not_or.2 (loaded_pc hl h0))

/-- A write of the temporary map by `load_route_data`. -/
theorem Intact.setTemp (h : Intact s) (hl : s.thread.Loading) {m : RouteMap} {at' : LoadPc}
    (hat : LoadPc.Holds s.latest m at') :
    Intact { s with thread := { s.thread.setTemp m with load := at' } } where
  pointers := h.pointers
  data := (Route.data_setTemp h.pointers).trans h.data
  installed := h.installed
  latest := h.latest
  load := by
    show LoadPc.Holds s.latest (s.route.setTemp m).temp at'
    rw [Route.temp_setTemp]
    exact hat
  outside := fun hout => absurd hl hout
  swap := fun hpc => absurd hpc (not_swap hl)

/-- `load_route_data` goes on without a write. -/
theorem Intact.goOn (h : Intact s) (hl : s.thread.Loading) {at' : LoadPc}
    (hat : LoadPc.Holds s.latest s.route.temp at') :
    Intact { s with thread := { s.thread with load := at' } } where
  pointers := h.pointers
  data := h.data
  installed := h.installed
  latest := h.latest
  load := hat
  outside := fun hout => absurd hl hout
  swap := h.swap

/-- The result of a `SELECT` has come in full. -/
theorem Intact.select (h : Intact s) (hl : s.thread.Loading) {rows : List RouteRow} (hempty : s.route.temp = ∅) :
    Intact { s with
      thread := { s.thread with load := .fill rows }
      selected := s.selected ++ [rows]
      latest := rows } where
  pointers := h.pointers
  data := h.data
  installed := List.mem_append_left _ h.installed
  latest := List.mem_append_right _ (List.mem_singleton.2 rfl)
  load := ⟨[], rfl, hempty⟩
  outside := fun hout => absurd hl hout
  swap := fun hpc => absurd hpc (not_swap hl)

theorem remember_store (hl : s.thread.Loading) {rows : List RouteRow} (hs : s.thread.load = .store rows) :
    s.remember ok = if ok then { s with selected := s.selected ++ [rows], latest := rows } else s := by
  unfold remember
  rcases hl with hl | hl <;> rw [hl, hs]

/-- Within `load_route_data` nothing but a result in full is remembered. -/
theorem remember_loading (hl : s.thread.Loading) (hs : ∀ rows, s.thread.load ≠ .store rows) :
    s.remember ok = s := by
  unfold remember
  rcases hl with hl | hl <;> rw [hl] <;> cases hload : s.thread.load with
  | clear => rfl
  | query => rfl
  | store rows => exact absurd hload (hs rows)
  | fill rows => rfl

/-- One statement of `load_route_data`. -/
theorem Intact.loadStep (h : Intact s) (hl : s.thread.Loading) (waitTime : ℤ) (ok : Bool) (now : ℤ) (db : Db) :
    Intact (s.step waitTime (.thread ok now db)) := by
  have hload := h.load
  show Intact { s.remember ok with thread := s.thread.step waitTime ok now db }
  rw [RouteThread.step_loading hl]
  unfold RouteThread.loadStep
  cases hat : s.thread.load with
  | clear =>
    -- `clear` on the temporary map, which no reader has
    rw [remember_loading hl fun rows hs => by rw [hat] at hs; cases hs]
    exact h.setTemp hl rfl
  | query =>
    rw [hat] at hload
    rw [remember_loading hl fun rows hs => by rw [hat] at hs; cases hs]
    cases ok with
    | true => exact h.goOn hl hload
    | false => exact h.returns hl fun h0 => absurd h0 (by decide)
  | store rows =>
    rw [hat] at hload
    rw [remember_store hl hat]
    cases ok with
    | true => exact h.select hl hload
    | false => exact h.returns hl fun h0 => absurd h0 (by decide)
  | fill left =>
    rw [hat] at hload
    rw [remember_loading hl fun rows hs => by rw [hat] at hs; cases hs]
    obtain ⟨done, hlatest, htemp⟩ := hload
    cases left with
    | nil =>
      -- the map has all rows, so it may be swapped in
      rw [List.append_nil] at hlatest
      exact h.returns hl fun _ => by rw [hlatest]; exact htemp
    | cons r left =>
      refine h.setTemp hl ⟨done ++ [r], by rw [hlatest, List.append_assoc]; rfl, ?_⟩
      rw [RouteMap.ofRows_snoc]
      exact congrArg (RouteMap.insertRow · r) htemp

/-- `swap` brings the map of the last result to the readers. -/
theorem Intact.swapped (h : Intact s) (hpc : s.thread.checker.pc = .swap ∨ s.thread.checker.pc = .reloadSwap)
    {pc : Pc} (hne : pc ≠ .swap ∧ pc ≠ .reloadSwap) (time : ℤ) :
    Intact { s with
      installed := s.latest
      thread := ⟨{ s.thread.checker with route := s.route.swap, pc := pc, lastLoadTime := time }, .clear⟩ } where
  pointers := h.pointers.symm
  data := h.swap hpc
  installed := h.latest
  latest := h.latest
  load := trivial
  outside := fun _ => rfl
  swap := fun h' => absurd h' (not_or.2 hne)

/-- One statement elsewhere. -/
theorem Intact.otherStep (h : Intact s) (hl : ¬ s.thread.Loading) (waitTime : ℤ) (ok : Bool) (now : ℤ) (db : Db) :
    Intact (s.step waitTime (.thread ok now db)) := by
  have hclear := h.outside hl
  show Intact { s.remember ok with thread := s.thread.step waitTime ok now db }
  rw [RouteThread.step_other hl, hclear]
  -- the two places that swap, and the statements that do not touch the maps
  by_cases hswap : s.thread.checker.pc = .swap
  · have hthread : (s.thread.checker.step waitTime ok now db).1 = { s.thread.checker with
        route := s.route.swap, pc := .loadChanges, lastLoadTime := s.thread.checker.currentTime } := by
      unfold Checker.step
      rw [hswap]
      rfl
    have hrem : s.remember ok = { s with installed := s.latest } := by
      unfold remember
      rw [hswap]
    rw [hthread, hrem]
    exact h.swapped (Or.inl hswap) (by decide) _
  by_cases hreswap : s.thread.checker.pc = .reloadSwap
  · have hthread : (s.thread.checker.step waitTime ok now db).1 = { s.thread.checker with
        route := s.route.swap, pc := .loadVersion, lastLoadTime := s.thread.checker.currentTime } := by
      unfold Checker.step
      rw [hreswap]
      rfl
    have hrem : s.remember ok = { s with installed := s.latest } := by
      unfold remember
      rw [hreswap]
    rw [hthread, hrem]
    exact h.swapped (Or.inr hreswap) (by decide) _
  · obtain ⟨v, pc, time, hpc, hpc', hstep⟩ := Checker.step_outside (fun h' => hl (Or.inl h'))
      (fun h' => hl (Or.inr h')) hswap hreswap waitTime ok now db
    have hrem : s.remember ok = s := by
      unfold remember
      rw [hclear]
      cases hc : s.thread.checker.pc <;> first | rfl | exact absurd hc hswap | exact absurd hc hreswap
    rw [show (s.thread.checker.step waitTime ok now db).1 = _ from hstep s.route rfl, hrem]
    exact ⟨h.pointers, h.data, h.installed, h.latest, trivial, fun _ => rfl,
      fun h' => absurd h' (not_or.2 ⟨hpc, hpc'⟩)⟩

/-- **One event keeps it.** -/
theorem Intact.step (h : Intact s) (waitTime : ℤ) (e : Event) : Intact (s.step waitTime e) := by
  cases e with
  | thread ok now db =>
    by_cases hl : s.thread.Loading
    · exact h.loadStep hl waitTime ok now db
    · exact h.otherStep hl waitTime ok now db
  | getHosts modid cmdid =>
    exact ⟨h.pointers, h.data, h.installed, h.latest, h.load, h.outside, h.swap⟩

theorem Intact.run (h : Intact s) (waitTime : ℤ) : ∀ es : List Event, Intact (s.run waitTime es) := by
  intro es
  induction es generalizing s with
  | nil => exact h
  | cons e es ih => exact ih (h.step waitTime e)

/-! ## Where the results come from -/

/-- The next statement is the query of a load. -/
def AtQuery (s : RouteService) : Prop := s.thread.Loading ∧ s.thread.load = .query

/-- A result of `SELECT * FROM RouteData` in a run from `s₀`: the one of `build_maps`, or what the
tables held when the thread was at its query and the query succeeded. -/
def Found (s₀ : RouteService) (waitTime : ℤ) (es : List Event) (result : List RouteRow) : Prop :=
  result ∈ s₀.selected ∨ ∃ pre now db, pre ++ [.thread true now db] <+: es ∧
    (s₀.run waitTime pre).AtQuery ∧ result = db.routeData.rows

/-- Every result in the history was found, and so was the one that is on its way. -/
structure Sourced (s₀ : RouteService) (waitTime : ℤ) (es : List Event) (s : RouteService) : Prop where
  selected : ∀ result ∈ s.selected, Found s₀ waitTime es result
  store : ∀ result, s.thread.load = .store result → Found s₀ waitTime es result

theorem Found.snoc {s₀ : RouteService} {result : List RouteRow} {es : List Event} (h : Found s₀ waitTime es result)
    (e : Event) : Found s₀ waitTime (es ++ [e]) result := by
  rcases h with h | ⟨pre, now, db, hpre, hat, h⟩
  · exact Or.inl h
  · exact Or.inr ⟨pre, now, db, hpre.trans (List.prefix_append es [e]), hat, h⟩

/-- A result that is on its way was so before, or the query has just found it. -/
theorem store_step {result : List RouteRow} (h : (s.thread.step waitTime ok now db).load = .store result) :
    s.thread.load = .store result ∨ (ok = true ∧ s.AtQuery ∧ result = db.routeData.rows) := by
  by_cases hl : s.thread.Loading
  · rw [RouteThread.step_loading hl] at h
    unfold RouteThread.loadStep at h
    cases hat : s.thread.load with
    | clear => rw [hat] at h; cases h
    | query =>
      rw [hat] at h
      cases ok with
      | true => cases h; exact Or.inr ⟨rfl, ⟨hl, hat⟩, rfl⟩
      | false => cases h
    | store rows =>
      rw [hat] at h
      cases ok <;> cases h
    | fill left =>
      rw [hat] at h
      cases left <;> cases h
  · rw [RouteThread.step_other hl] at h
    exact Or.inl h

theorem selected_remember {result : List RouteRow} (h : result ∈ (s.remember ok).selected) :
    result ∈ s.selected ∨ s.thread.load = .store result := by
  unfold remember at h
  split at h
  · exact Or.inl h
  · exact Or.inl h
  · rename_i hat _ _
    split at h
    · rcases List.mem_append.1 h with h' | h'
      · exact Or.inl h'
      · rw [List.mem_singleton.1 h']
        exact Or.inr hat
    · exact Or.inl h
  · exact Or.inl h

theorem Sourced.step {s₀ : RouteService} {es : List Event} (h : Sourced s₀ waitTime es (s₀.run waitTime es))
    (e : Event) : Sourced s₀ waitTime (es ++ [e]) ((s₀.run waitTime es).step waitTime e) := by
  cases e with
  | getHosts modid cmdid =>
    exact ⟨fun r hr => (h.selected r hr).snoc _, fun r hr => (h.store r hr).snoc _⟩
  | thread ok now db =>
    refine ⟨fun r hr => ?_, fun r hr => ?_⟩
    · rcases selected_remember hr with hr' | hr'
      · exact (h.selected r hr').snoc _
      · exact (h.store r hr').snoc _
    · rcases store_step hr with hr' | ⟨rfl, hat, hrows⟩
      · exact (h.store r hr').snoc _
      · exact Or.inr ⟨es, now, db, List.prefix_refl _, hat, hrows⟩

theorem sourced_run (route : Route) (rows : List RouteRow) (waitTime now : ℤ) (es : List Event) :
    Sourced (start route rows now) waitTime es ((start route rows now).run waitTime es) := by
  induction es using List.reverseRecOn with
  | nil => exact ⟨fun r hr => Or.inl hr, fun r hr => by cases hr⟩
  | append_singleton es e ih =>
    have hrun : (start route rows now).run waitTime (es ++ [e]) =
        ((start route rows now).run waitTime es).step waitTime e := by
      unfold run
      rw [List.foldl_append]
      rfl
    rw [hrun]
    exact ih.step e

/-! ## A load that fails -/

/-- The result of the query that a statement of the thread makes. -/
def Event.result : Event → Option Bool
  | .thread ok _ _ => some ok
  | .getHosts .. => none

def Event.isCall : Event → Bool
  | .thread .. => false
  | .getHosts .. => true

/-- What a call of `get_hosts` finds in `r`. -/
def Event.answer (r : Route) : Event → Option (Finset UInt64)
  | .thread .. => none
  | .getHosts modid cmdid => some (r.getHosts modid cmdid)

/-- **The events are a load that fails**, from its start to its return, with calls of `get_hosts`
between its statements: the query fails, or the result of the query does not come. -/
def FailsLoad (s : RouteService) (es : List Event) : Prop :=
  s.thread.Loading ∧ s.thread.load = .clear ∧
    ∃ b, es.filterMap Event.result = [b, false] ∨ es.filterMap Event.result = [b, true, false]

/-- `load_route_data` returns -1 at once, without a single write. -/
def giveUp (s : RouteService) : RouteService := { s with thread := s.thread.returns (-1) }

theorem answer_congr {r r' : Route} (h : r.data = r'.data) : Event.answer r = Event.answer r' := by
  funext e
  cases e with
  | thread ok now db => rfl
  | getHosts modid cmdid =>
    show some ((AList.lookup _ r.data).getD ∅) = some ((AList.lookup _ r'.data).getD ∅)
    rw [h]

theorem answers_remember (ok : Bool) (s : RouteService) : (s.remember ok).answers = s.answers := by
  unfold remember
  split
  · rfl
  · rfl
  · split <;> rfl
  · rfl

/-- Calls of `get_hosts` alone. -/
theorem run_calls (waitTime : ℤ) : ∀ (es : List Event) (s : RouteService), es.filterMap Event.result = [] →
    s.run waitTime es = { s with answers := s.answers ++ es.filterMap (Event.answer s.route) } := by
  intro es
  induction es with
  | nil =>
    intro s _
    show s = { s with answers := s.answers ++ [] }
    rw [List.append_nil]
  | cons e es ih =>
    intro s h
    cases e with
    | thread ok now db => cases h
    | getHosts modid cmdid =>
      have hrest := ih { s with answers := s.answers ++ [s.route.getHosts modid cmdid] } h
      rw [List.append_assoc] at hrest
      exact hrest

/-- The statement that fails. -/
theorem step_fails (hl : s.thread.Loading) (hat : s.thread.load = .query ∨ ∃ rows, s.thread.load = .store rows)
    (waitTime now : ℤ) (db : Db) :
    s.step waitTime (.thread false now db) = { s with thread := s.thread.returns (-1) } := by
  have hrem : s.remember false = s := by
    rcases hat with hat | ⟨rows, hat⟩
    · exact remember_loading hl fun rows hs => by rw [hat] at hs; cases hs
    · exact remember_store hl hat
  have hthread : s.thread.step waitTime false now db = s.thread.returns (-1) := by
    rw [RouteThread.step_loading hl]
    unfold RouteThread.loadStep
    rcases hat with hat | ⟨rows, hat⟩ <;> rw [hat] <;> rfl
  show { s.remember false with thread := s.thread.step waitTime false now db } = _
  rw [hrem, hthread]

/-- A load that has cleared its map and fails. -/
theorem run_fails (waitTime : ℤ) : ∀ (es : List Event) (s : RouteService), s.thread.Loading →
    (s.thread.load = .query ∧ es.filterMap Event.result = [true, false]) ∨
      ((s.thread.load = .query ∨ ∃ rows, s.thread.load = .store rows) ∧ es.filterMap Event.result = [false]) →
    (s.run waitTime es).thread = s.thread.returns (-1) ∧
      (s.run waitTime es).answers = s.answers ++ es.filterMap (Event.answer s.route) := by
  intro es
  induction es with
  | nil => rintro s - (⟨-, h⟩ | ⟨-, h⟩) <;> cases h
  | cons e es ih =>
    intro s hl hcase
    cases e with
    | getHosts modid cmdid =>
      obtain ⟨hthread, hanswers⟩ := ih { s with answers := s.answers ++ [s.route.getHosts modid cmdid] } hl hcase
      rw [List.append_assoc] at hanswers
      exact ⟨hthread, hanswers⟩
    | thread ok now db =>
      rcases hcase with ⟨hat, hres⟩ | ⟨hat, hres⟩
      · -- the query succeeds, and its result does not come
        obtain ⟨rfl, hrest⟩ := List.cons.inj hres
        have hstep : s.step waitTime (.thread true now db) =
            { s with thread := { s.thread with load := .store db.routeData.rows } } := by
          have hthread : s.thread.step waitTime true now db =
              { s.thread with load := .store db.routeData.rows } := by
            rw [RouteThread.step_loading hl]
            unfold RouteThread.loadStep
            rw [hat]
            rfl
          show { s.remember true with thread := s.thread.step waitTime true now db } = _
          rw [remember_loading hl (fun rows hs => by rw [hat] at hs; cases hs), hthread]
        show ((s.step waitTime (.thread true now db)).run waitTime es).thread = _ ∧
          ((s.step waitTime (.thread true now db)).run waitTime es).answers = _
        rw [hstep]
        exact ih { s with thread := { s.thread with load := .store db.routeData.rows } } hl
          (Or.inr ⟨Or.inr ⟨_, rfl⟩, hrest⟩)
      · obtain ⟨rfl, hrest⟩ := List.cons.inj hres
        show ((s.step waitTime (.thread false now db)).run waitTime es).thread = _ ∧
          ((s.step waitTime (.thread false now db)).run waitTime es).answers = _
        rw [step_fails hl hat, run_calls waitTime es _ hrest]
        exact ⟨rfl, rfl⟩

/-- **A load that fails** leaves an empty temporary map behind, and the calls of `get_hosts`
during it read the map from before. -/
theorem Intact.run_failsLoad (h : Intact s) (waitTime : ℤ) : ∀ es : List Event, s.FailsLoad es →
    (s.run waitTime es).thread = (s.thread.setTemp ∅).returns (-1) ∧
      (s.run waitTime es).answers = s.answers ++ es.filterMap (Event.answer s.route) := by
  intro es
  induction es generalizing s with
  | nil => rintro ⟨-, -, b, hb | hb⟩ <;> cases hb
  | cons e es ih =>
    rintro ⟨hl, hclear, b, hb⟩
    cases e with
    | getHosts modid cmdid =>
      obtain ⟨hthread, hanswers⟩ := ih (s := s.step waitTime (.getHosts modid cmdid))
        (h.step waitTime (.getHosts modid cmdid)) ⟨hl, hclear, b, hb⟩
      rw [show (s.step waitTime (.getHosts modid cmdid)).answers = s.answers ++ [s.route.getHosts modid cmdid]
        from rfl, List.append_assoc] at hanswers
      exact ⟨hthread, hanswers⟩
    | thread ok now db =>
      have hstep : s.step waitTime (.thread ok now db) =
          { s with thread := { s.thread.setTemp ∅ with load := .query } } := by
        have hthread : s.thread.step waitTime ok now db = { s.thread.setTemp ∅ with load := .query } := by
          rw [RouteThread.step_loading hl]
          unfold RouteThread.loadStep
          rw [hclear]
        show { s.remember ok with thread := s.thread.step waitTime ok now db } = _
        rw [remember_loading hl (fun rows hs => by rw [hclear] at hs; cases hs), hthread]
      have hrest : es.filterMap Event.result = [true, false] ∨ es.filterMap Event.result = [false] := by
        rcases hb with hb | hb
        · exact Or.inr (List.cons.inj hb).2
        · exact Or.inl (List.cons.inj hb).2
      have hrun := run_fails waitTime es { s with thread := { s.thread.setTemp ∅ with load := .query } } hl
        (hrest.imp (fun h' => ⟨rfl, h'⟩) fun h' => ⟨Or.inl rfl, h'⟩)
      show ((s.step waitTime (.thread ok now db)).run waitTime es).thread = _ ∧
        ((s.step waitTime (.thread ok now db)).run waitTime es).answers = _
      rw [hstep]
      refine ⟨hrun.1, hrun.2.trans ?_⟩
      show s.answers ++ es.filterMap (Event.answer (s.route.setTemp ∅)) = _
      rw [answer_congr (Route.data_setTemp h.pointers : (s.route.setTemp ∅).data = s.route.data)]
      rfl

/-- **Threads that differ in a temporary map at most**, and only while the next load clears it
before anything reads it. -/
inductive Twin : RouteThread → RouteThread → Prop
  | same (t : RouteThread) : Twin t t
  | temp (t : RouteThread) (m : RouteMap) (clear : t.load = .clear) (swap : t.checker.pc ≠ .swap)
      (reload : t.checker.pc ≠ .reloadSwap) : Twin (t.setTemp m) t

theorem Twin.data {u v : RouteThread} (h : Twin u v)
    (hp : v.checker.route.dataPointer ≠ v.checker.route.tempPointer) :
    u.checker.route.data = v.checker.route.data := by
  cases h with
  | same => rfl
  | temp => exact Route.data_setTemp hp

/-- One statement keeps twins. -/
theorem Twin.step {u v : RouteThread} (h : Twin u v) (waitTime : ℤ) (ok : Bool) (now : ℤ) (db : Db) :
    Twin (u.step waitTime ok now db) (v.step waitTime ok now db) := by
  cases h with
  | same => exact .same _
  | temp v m hclear hswap hreswap =>
    by_cases hl : v.Loading
    · -- the load starts, and the two are one
      have hclears : ∀ t : RouteThread, t.load = .clear → t.Loading →
          t.step waitTime ok now db = { t.setTemp ∅ with load := .query } := by
        intro t ht hl
        rw [RouteThread.step_loading hl]
        unfold RouteThread.loadStep
        rw [ht]
      have hsame : ((v.setTemp m).setTemp ∅) = v.setTemp ∅ := by
        unfold RouteThread.setTemp
        dsimp only
        rw [Route.setTemp_setTemp]
      rw [hclears v hclear hl, hclears (v.setTemp m) hclear hl, hsame]
      exact .same _
    · -- elsewhere no statement reads the temporary map
      obtain ⟨w, pc, time, hpc, hpc', hstep⟩ := Checker.step_outside (fun h' => hl (Or.inl h'))
        (fun h' => hl (Or.inr h')) hswap hreswap waitTime ok now db
      rw [RouteThread.step_other hl, RouteThread.step_other (t := v.setTemp m) hl,
        show (v.checker.step waitTime ok now db).1 = _ from hstep v.checker.route rfl,
        show ((v.setTemp m).checker.step waitTime ok now db).1 = _ from
          hstep (v.checker.route.setTemp m) rfl]
      exact .temp ⟨{ v.checker with
        route := { v.checker.route with version := w }, pc := pc, currentTime := time }, v.load⟩ m
        hclear hpc hpc'

/-- **Twins give the same answers** from there on. -/
theorem Twin.answers (waitTime : ℤ) : ∀ (es : List Event) {s t : RouteService}, Twin s.thread t.thread →
    s.answers = t.answers → Intact t → (s.run waitTime es).answers = (t.run waitTime es).answers := by
  intro es
  induction es with
  | nil => exact fun _ ha _ => ha
  | cons e es ih =>
    intro s t h ha ht
    refine ih (s := s.step waitTime e) (t := t.step waitTime e) ?_ ?_ (ht.step waitTime e)
    · cases e with
      | thread ok now db => exact h.step waitTime ok now db
      | getHosts modid cmdid => exact h
    · cases e with
      | thread ok now db =>
        exact (answers_remember ok s).trans (ha.trans (answers_remember ok t).symm)
      | getHosts modid cmdid =>
        have hread : s.route.getHosts modid cmdid = t.route.getHosts modid cmdid :=
          Option.some.inj (congrFun (answer_congr (h.data ht.pointers)) (.getHosts modid cmdid))
        show s.answers ++ [s.route.getHosts modid cmdid] = t.answers ++ [t.route.getHosts modid cmdid]
        rw [ha, hread]

/-- **A load that fails changes no answer**, then or later: the calls of `get_hosts` during it
and everything behind it go as if the load had returned at once. -/
theorem giveUp_answers (h : Intact s) {load : List Event} (hf : s.FailsLoad load) (waitTime : ℤ)
    (more : List Event) :
    ((s.run waitTime load).run waitTime more).answers =
      ((s.run waitTime (load.filter Event.isCall)).giveUp.run waitTime more).answers := by
  obtain ⟨hthread, hanswers⟩ := h.run_failsLoad waitTime load hf
  have hcalls : (load.filter Event.isCall).filterMap Event.result = [] := by
    rw [List.filterMap_eq_nil_iff]
    intro e he
    have hcall := (List.mem_filter.1 he).2
    cases e with
    | thread ok now db => cases hcall
    | getHosts modid cmdid => rfl
  have hsame : (load.filter Event.isCall).filterMap (Event.answer s.route) =
      load.filterMap (Event.answer s.route) := by
    rw [List.filterMap_filter]
    refine List.filterMap_congr fun e _ => ?_
    cases e <;> rfl
  have hrun := run_calls waitTime _ s hcalls
  rw [hsame] at hrun
  rw [hrun]
  -- the two differ in the temporary map only, and the next load clears it
  refine Twin.answers waitTime more ?_ hanswers ?_
  · rw [hthread]
    exact .temp (s.thread.returns (-1)) ∅ rfl (loaded_pc hf.1 (by decide)).1 (loaded_pc hf.1 (by decide)).2
  · have hi := h.run waitTime (load.filter Event.isCall)
    rw [hrun] at hi
    exact hi.returns hf.1 fun h0 => absurd h0 (by decide)

/-- **The maps of the DNS service**, along every run of the thread and its readers, whatever the
queries bring: the two pointers never alias; `get_hosts` reads the map of one complete result of a
`SELECT`, which the thread has stored; and a load that fails changes no answer, then or later. -/
theorem maps_intact {version : Option (Option ℤ)} {rows : List RouteRow} {route : Route}
    (hnew : Route.new version (some rows) = some route) (waitTime now : ℤ) (es : List Event)
    {s : RouteService} (hs : (start route rows now).run waitTime es = s) :
    s.route.dataPointer ≠ s.route.tempPointer ∧
      (∃ result ∈ s.selected, Found (start route rows now) waitTime es result ∧ s.route.data = .ofRows result) ∧
      ∀ load, s.FailsLoad load → ∀ more, ((s.run waitTime load).run waitTime more).answers =
        ((s.run waitTime (load.filter Event.isCall)).giveUp.run waitTime more).answers := by
  subst hs
  have h := (intact_start hnew now).run waitTime es
  have hsrc := sourced_run route rows waitTime now es
  exact ⟨h.pointers, ⟨_, h.installed, hsrc.selected _ h.installed, h.data⟩,
    fun load hf more => giveUp_answers h hf waitTime more⟩

/-- `RouteData` with one route. -/
def oneRoute : Db := ⟨RouteTable.empty.add 1 1 2130706433 80, some 2, .empty⟩

/-- A version is new, and the load that follows loses its connection behind the query. -/
def lostResult : List Event :=
  [.thread true 1 oneRoute, .thread true 2 oneRoute, .thread true 2 oneRoute, .getHosts 1 1,
    .thread true 2 oneRoute, .thread false 2 oneRoute, .getHosts 1 1]

/-- The maps of `oneRoute`, as the constructor leaves them. -/
def oneRouteMaps : Route := ⟨Function.update (fun _ => ∅) .a (.ofRows oneRoute.routeData.rows), .a, .b, 1⟩

theorem maps_intact_lostResult :
    ∃ s, (start oneRouteMaps oneRoute.routeData.rows 0).run 10 lostResult = s ∧
      s.route.dataPointer ≠ s.route.tempPointer ∧
      (∃ result ∈ s.selected, Found (start oneRouteMaps oneRoute.routeData.rows 0) 10 lostResult result ∧
        s.route.data = .ofRows result) ∧
      ∀ load, s.FailsLoad load → ∀ more, ((s.run 10 load).run 10 more).answers =
        ((s.run 10 (load.filter Event.isCall)).giveUp.run 10 more).answers :=
  have hnew : Route.new (some (some 1)) (some oneRoute.routeData.rows) = some oneRouteMaps := rfl
  ⟨_, rfl, maps_intact hnew 10 0 lostResult rfl⟩

end RouteService

end LbRpc
