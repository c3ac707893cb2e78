import LbRpc.Proof.RouteChange

/-!
# How old the routes of `get_hosts` may be

A cycle that finds no new version still loads `RouteData` once `wait_time` has passed, so an
edit reaches the map of `get_hosts` also when its announcement is lost.

* `Since`: what a state remembers of an earlier one.
* `World.edits_reach_map`: whatever was written by some moment is in the map by the end of
  the first cycle that starts `wait_time` later, and stays there, as long as no load fails
  in the cycles from then on.
-/

namespace LbRpc

namespace World

/-- The map that `get_hosts` reads is that of a `RouteData` with the edits of `log`. -/
def Reads (edits : List Edit) (t : RouteTable) (log : List ℕ) (w : World) : Prop :=
  ∃ l, w.hist.installed = some l ∧ log <+: l ∧ w.checker.route.data = .ofRows (replay edits t l).rows

/-- In a cycle that started at the time `c` or later, the load of `RouteData` succeeds. -/
def LoadsFrom (c : ℤ) (_ : List Event) (w : World) : Event → Prop
  | .tick _ => True
  | .web _ => True
  | .poll ok => w.checker.pc = .loadRouteData ∨ w.checker.pc = .reload →
    c ≤ w.checker.currentTime → ok = true

instance (c : ℤ) (pre : List Event) (w : World) : (e : Event) → Decidable (LoadsFrom c pre w e)
  | .tick _ => inferInstanceAs (Decidable True)
  | .web _ => inferInstanceAs (Decidable True)
  | .poll ok => inferInstanceAs (Decidable (w.checker.pc = .loadRouteData ∨ w.checker.pc = .reload →
    c ≤ w.checker.currentTime → ok = true))

variable {edits : List Edit} {t : RouteTable} {w u : World} {waitTime : ℤ}

/-- The edit log is only ever extended. -/
theorem web_log (i : ℕ) (h : Handler) : w.hist.log <+: (w.web i h).hist.log :=
  web_cases (P := fun u => w.hist.log <+: u.hist.log) (List.prefix_refl _) (List.prefix_append _ _)
    (fun _ _ _ => List.prefix_refl _) fun _ => List.prefix_refl _

/-- A request has no clock and no part in the checker. -/
theorem web_checker (i : ℕ) (h : Handler) :
    (w.web i h).clock = w.clock ∧ (w.web i h).checker = w.checker ∧
      (w.web i h).hist.loaded = w.hist.loaded ∧ (w.web i h).hist.installed = w.hist.installed :=
  web_cases (P := fun u => u.clock = w.clock ∧ u.checker = w.checker ∧ u.hist.loaded = w.hist.loaded ∧
    u.hist.installed = w.hist.installed) ⟨rfl, rfl, rfl, rfl⟩ ⟨rfl, rfl, rfl, rfl⟩
    (fun _ _ _ => ⟨rfl, rfl, rfl, rfl⟩) fun _ => ⟨rfl, rfl, rfl, rfl⟩

/-- A cycle that loads nothing has seen a load within `wait_time`. -/
theorem poll_idle (hpc : w.checker.pc = .loadVersion) (ok : Bool)
    (hidle : (w.poll waitTime ok).checker.pc = .loadVersion) :
    w.clock - w.checker.lastLoadTime < waitTime := by
  unfold World.poll Checker.step at hidle
  rw [hpc] at hidle
  dsimp only at hidle
  by_cases h1 : (w.checker.route.loadVersion (if ok then some w.db.routeVersion else none)).1 = 1
  · rw [if_pos h1] at hidle
    cases hidle
  · rw [if_neg h1] at hidle
    by_cases h2 : waitTime ≤ w.clock - w.checker.lastLoadTime
    · rw [if_pos h2] at hidle
      cases hidle
    · omega

/-! ## What is loaded later -/

/-- **A state that comes after the time `c`**, when the edits of `log` were written: what the
checker loads and installs in a cycle that starts later has them all. -/
structure Since (log : List ℕ) (c : ℤ) (w : World) : Prop where
  written : log <+: w.hist.log
  clock : c ≤ w.clock
  current : w.checker.currentTime ≤ w.clock
  last : w.checker.lastLoadTime ≤ w.checker.currentTime
  loaded : w.checker.pc = .swap ∨ w.checker.pc = .reloadSwap → c < w.checker.currentTime →
    log <+: w.hist.loaded
  installed : c < w.checker.lastLoadTime → ∃ l, w.hist.installed = some l ∧ log <+: l

variable {log : List ℕ} {c : ℤ}

theorem since_start (edits : List Edit) (db : Db) (route : Route) (now : ℤ) :
    Since [] now (start edits db route now) where
  written := List.prefix_refl _
  clock := le_refl now
  current := le_refl now
  last := le_refl now
  loaded := fun _ _ => List.prefix_refl _
  installed := fun h => absurd h (lt_irrefl now)

/-- Every state comes after itself. -/
theorem Since.now (h : Since log c w) : Since w.hist.log w.clock w where
  written := List.prefix_refl _
  clock := le_refl _
  current := h.current
  last := h.last
  loaded := fun _ hc => by
    have hcur := h.current
    omega
  installed := fun hc => by
    have hcur := h.current
    have hlast := h.last
    omega

theorem Since.tick (h : Since log c w) (seconds : ℕ) : Since log c { w with clock := w.clock + seconds } where
  written := h.written
  clock := by
    have hclock := h.clock
    show c ≤ w.clock + seconds
    omega
  current := by
    have hcur := h.current
    show w.checker.currentTime ≤ w.clock + seconds
    omega
  last := h.last
  loaded := h.loaded
  installed := h.installed

theorem Since.web (h : Since log c w) (i : ℕ) (hd : Handler) : Since log c (w.web i hd) := by
  obtain ⟨hclock, hchecker, hloaded, hinst⟩ := web_checker (w := w) i hd
  refine ⟨h.written.trans (web_log i hd), ?_, ?_, ?_, ?_, ?_⟩
  · rw [hclock]; exact h.clock
  · rw [hclock, hchecker]; exact h.current
  · rw [hchecker]; exact h.last
  · rw [hchecker, hloaded]; exact h.loaded
  · rw [hchecker, hinst]; exact h.installed

/-- A statement that neither loads nor installs a map. -/
theorem Since.keep (h : Since log c w) (hlog : u.hist.log = w.hist.log) (hclock : u.clock = w.clock)
    (hcur : u.checker.currentTime = w.checker.currentTime)
    (hlast : u.checker.lastLoadTime = w.checker.lastLoadTime)
    (hpc : u.checker.pc ≠ .swap ∧ u.checker.pc ≠ .reloadSwap)
    (hinst : u.hist.installed = w.hist.installed) : Since log c u where
  written := by rw [hlog]; exact h.written
  clock := by rw [hclock]; exact h.clock
  current := by rw [hcur, hclock]; exact h.current
  last := by rw [hcur, hlast]; exact h.last
  loaded := fun hp => by
    rcases hp with hp | hp
    · exact absurd hp hpc.1
    · exact absurd hp hpc.2
  installed := by rw [hlast, hinst]; exact h.installed

/-- The whole log is loaded. -/
theorem Since.load (h : Since log c w) (hlog : u.hist.log = w.hist.log) (hclock : u.clock = w.clock)
    (hcur : u.checker.currentTime = w.checker.currentTime)
    (hlast : u.checker.lastLoadTime = w.checker.lastLoadTime)
    (hload : u.hist.loaded = w.hist.log) (hinst : u.hist.installed = w.hist.installed) :
    Since log c u where
  written := by rw [hlog]; exact h.written
  clock := by rw [hclock]; exact h.clock
  current := by rw [hcur, hclock]; exact h.current
  last := by rw [hcur, hlast]; exact h.last
  loaded := fun _ _ => by rw [hload]; exact h.written
  installed := by rw [hlast, hinst]; exact h.installed

/-- What was loaded is installed, with the time at which its cycle started. -/
theorem Since.swap (h : Since log c w) (hpc : w.checker.pc = .swap ∨ w.checker.pc = .reloadSwap)
    (hlog : u.hist.log = w.hist.log) (hclock : u.clock = w.clock)
    (hcur : u.checker.currentTime = w.checker.currentTime)
    (hlast : u.checker.lastLoadTime = w.checker.currentTime)
    (hu : u.checker.pc ≠ .swap ∧ u.checker.pc ≠ .reloadSwap)
    (hinst : u.hist.installed = some w.hist.loaded) : Since log c u where
  written := by rw [hlog]; exact h.written
  clock := by rw [hclock]; exact h.clock
  current := by rw [hcur, hclock]; exact h.current
  last := by rw [hcur, hlast]
  loaded := fun hp => by
    rcases hp with hp | hp
    · exact absurd hp hu.1
    · exact absurd hp hu.2
  installed := by
    rw [hlast, hinst]
    exact fun hc => ⟨w.hist.loaded, rfl, h.loaded hpc hc⟩

theorem Since.poll (h : Since log c w) (waitTime : ℤ) (ok : Bool) : Since log c (w.poll waitTime ok) := by
  cases hpc : w.checker.pc with
  | removeAll =>
    rw [poll_removeAll hpc]
    rcases ok with _ | _ <;> exact h.keep rfl rfl rfl rfl ⟨by simp, by simp⟩ rfl
  | loadVersion =>
    -- a new cycle takes the time of the clock
    obtain ⟨v, pc, hv, heq⟩ := poll_loadVersion hpc waitTime ok
    rw [heq]
    have hlast : w.checker.lastLoadTime ≤ w.clock := h.last.trans h.current
    refine ⟨h.written, h.clock, le_refl _, hlast, fun hp => ?_, h.installed⟩
    rcases hv with rfl | rfl | rfl <;> simp at hp
  | loadRouteData =>
    rcases ok with _ | _
    · rw [poll_loadRouteData_fail hpc]
      exact h.keep rfl rfl rfl rfl ⟨by simp, by simp⟩ rfl
    · rw [poll_loadRouteData_ok hpc]
      exact h.load rfl rfl rfl rfl rfl rfl
  | swap =>
    rw [poll_swap hpc]
    exact h.swap (Or.inl hpc) rfl rfl rfl rfl ⟨by simp, by simp⟩ rfl
  | loadChanges =>
    rw [poll_loadChanges hpc]
    exact h.keep rfl rfl rfl rfl ⟨by simp, by simp⟩ rfl
  | publish ch =>
    rw [poll_publish hpc]
    exact h.keep rfl rfl rfl rfl ⟨by simp, by simp⟩ rfl
  | removeChanges =>
    rw [poll_removeChanges hpc]
    rcases ok with _ | _ <;> exact h.keep rfl rfl rfl rfl ⟨by simp, by simp⟩ rfl
  | reload =>
    rcases ok with _ | _
    · rw [poll_reload_fail hpc]
      exact h.keep rfl rfl rfl rfl ⟨by simp, by simp⟩ rfl
    · rw [poll_reload_ok hpc]
      exact h.load rfl rfl rfl rfl rfl rfl
  | reloadSwap =>
    rw [poll_reloadSwap hpc]
    exact h.swap (Or.inr hpc) rfl rfl rfl rfl ⟨by simp, by simp⟩ rfl

/-! ## Cycles that are due -/

/-- **A cycle that starts `wait_time` after `c` has a load behind it**, its own or one that
another cycle made in the meantime. -/
def Due (waitTime c : ℤ) (w : World) : Prop :=
  match w.checker.pc with
  | .removeAll => w.checker.currentTime ≤ c
  | .loadRouteData => True
  | .swap => True
  | .reload => True
  | .reloadSwap => True
  | _ => c + waitTime ≤ w.checker.currentTime → c < w.checker.lastLoadTime

/-- Nothing is due in a state of the time `c` itself. -/
theorem due_now (hwait : 0 < waitTime) (h : w.checker.currentTime ≤ c) : Due waitTime c w := by
  have hnot : ¬ c + waitTime ≤ w.checker.currentTime := by omega
  unfold Due
  split
  · exact h
  · trivial
  · trivial
  · trivial
  · trivial
  · exact fun hc => absurd hc hnot

/-- A step that is none of the checker's. -/
theorem Due.keep (h : Due waitTime c w) (hchecker : u.checker = w.checker) : Due waitTime c u := by
  unfold Due at h ⊢
  rw [hchecker]
  exact h

theorem Due.poll (h : Due waitTime c w) (hwait : 0 < waitTime) {pre : List Event} {ok : Bool}
    (hok : LoadsFrom (c + waitTime) pre w (.poll ok)) : Due waitTime c (w.poll waitTime ok) := by
  unfold Due at h
  cases hpc : w.checker.pc with
  | removeAll =>
    -- the thread has just started
    rw [hpc] at h
    dsimp only at h
    have hnot : ¬ c + waitTime ≤ w.checker.currentTime := by omega
    rw [poll_removeAll hpc]
    rcases ok with _ | _ <;> exact fun hc => absurd hc hnot
  | loadVersion =>
    have hidle : (w.poll waitTime ok).checker.pc = .loadVersion → w.clock - w.checker.lastLoadTime < waitTime :=
      poll_idle hpc ok
    obtain ⟨v, pc, hv, heq⟩ := poll_loadVersion hpc waitTime ok
    rw [heq] at hidle ⊢
    rcases hv with rfl | rfl | rfl
    · trivial
    · trivial
    · -- the cycle loads nothing: the last load is not that long ago
      intro hc
      have hlt := hidle rfl
      have hc' : c + waitTime ≤ w.clock := hc
      show c < w.checker.lastLoadTime
      omega
  | loadRouteData =>
    rcases ok with _ | _
    · -- a load that fails is none of a cycle that is due
      rw [poll_loadRouteData_fail hpc]
      intro hc
      exact absurd (hok (Or.inl hpc) hc) (by decide)
    · rw [poll_loadRouteData_ok hpc]
      trivial
  | swap =>
    rw [poll_swap hpc]
    intro hc
    have hc' : c + waitTime ≤ w.checker.currentTime := hc
    show c < w.checker.currentTime
    omega
  | loadChanges =>
    rw [hpc] at h
    rw [poll_loadChanges hpc]
    exact h
  | publish ch =>
    rw [hpc] at h
    rw [poll_publish hpc]
    exact h
  | removeChanges =>
    rw [hpc] at h
    rw [poll_removeChanges hpc]
    exact h
  | reload =>
    rcases ok with _ | _
    · rw [poll_reload_fail hpc]
      intro hc
      exact absurd (hok (Or.inr hpc) hc) (by decide)
    · rw [poll_reload_ok hpc]
      trivial
  | reloadSwap =>
    rw [poll_reloadSwap hpc]
    intro hc
    have hc' : c + waitTime ≤ w.checker.currentTime := hc
    show c < w.checker.currentTime
    omega

/-! ## Runs -/

/-- What holds in every run, whatever queries fail. -/
structure Aged (edits : List Edit) (t : RouteTable) (log : List ℕ) (c : ℤ) (w : World) : Prop where
  tables : Tables edits t w
  maps : Maps edits t w
  since : Since log c w

theorem Aged.step (h : Aged edits t log c w) (e : Event) (waitTime : ℤ) :
    ∃ u, w.step waitTime e = .ok u ∧ Aged edits t log c u := by
  rcases e with seconds | i | ok
  · refine ⟨_, rfl, ⟨h.tables.requests, h.tables.written, h.tables.table, h.tables.authors⟩,
      ⟨h.maps.pointers, h.maps.loaded, h.maps.installed, h.maps.published⟩, h.since.tick seconds⟩
  · unfold World.step
    dsimp only
    rcases hi : w.handlers[i]? with _ | hd
    · exact ⟨w, rfl, h⟩
    · exact ⟨_, rfl, h.tables.web hi, h.maps.web i hd, h.since.web i hd⟩
  · exact ⟨_, rfl, h.tables.poll waitTime ok, h.maps.poll h.tables waitTime ok, h.since.poll waitTime ok⟩

theorem Aged.run (h : Aged edits t log c w) (waitTime : ℤ) (es : List Event) :
    Runs.Always (World.step waitTime) (fun _ u => Aged edits t log c u) w es :=
  Runs.always_of_step h fun _ e _ _ _ hu => hu.step e waitTime

theorem Aged.of_run (h : Aged edits t log c w) {es : List Event}
    (hrun : Runs.run (World.step waitTime) w es = .ok u) : Aged edits t log c u := by
  obtain ⟨v, hv, hA⟩ := h.run waitTime es es (List.prefix_refl _)
  rw [hrun] at hv
  cases hv
  exact hA

theorem aged_start {route : Route} (hptr : route.dataPointer ≠ route.tempPointer)
    (edits : List Edit) (db : Db) (now : ℤ) :
    Aged edits db.routeData [] now (start edits db route now) where
  tables := tables_start edits db route now
  maps := {
    pointers := hptr
    loaded := fun hp => by rcases hp with hp | hp <;> cases hp
    installed := fun _ hi => by cases hi
    published := fun _ hp => by cases hp }
  since := since_start edits db route now

theorem Due.run (hwait : 0 < waitTime) (h : Due waitTime c w) {es : List Event}
    (hload : Runs.Along (World.step waitTime) (LoadsFrom (c + waitTime)) w es) :
    Runs.Throughout (World.step waitTime) (fun _ u => Due waitTime c u) w es := by
  refine Runs.throughout_of_along h ?_ hload
  intro pre e v u hv hok hstep
  rcases e with seconds | i | ok
  · cases hstep
    exact hv.keep rfl
  · unfold World.step at hstep
    dsimp only at hstep
    rcases hi : v.handlers[i]? with _ | hd
    · rw [hi] at hstep
      cases hstep
      exact hv
    · rw [hi] at hstep
      cases hstep
      exact hv.keep (web_checker i hd).2.1
  · cases hstep
    exact hv.poll hwait hok

/-- The map is the image of a log with the edits. -/
theorem Aged.reads (h : Aged edits t log c w) (hlast : c < w.checker.lastLoadTime) :
    Reads edits t log w := by
  obtain ⟨l, hinst, hl⟩ := h.since.installed hlast
  exact ⟨l, hinst, hl, h.maps.installed l hinst⟩

/-- A later load takes nothing back. -/
theorem Aged.lastLoad_step (h : Aged edits t log c w) (hlast : c < w.checker.lastLoadTime) {e : Event}
    (hstep : w.step waitTime e = .ok u) : c < u.checker.lastLoadTime := by
  have hcur : c < w.checker.currentTime := lt_of_lt_of_le hlast h.since.last
  rcases e with seconds | i | ok
  · cases hstep
    exact hlast
  · unfold World.step at hstep
    dsimp only at hstep
    rcases hi : w.handlers[i]? with _ | hd
    · rw [hi] at hstep
      cases hstep
      exact hlast
    · rw [hi] at hstep
      cases hstep
      rw [(web_checker i hd).2.1]
      exact hlast
  · cases hstep
    cases hpc : w.checker.pc with
    | removeAll => rw [poll_removeAll hpc]; exact hlast
    | loadVersion =>
      obtain ⟨v, pc, hv, heq⟩ := poll_loadVersion hpc waitTime ok
      rw [heq]
      exact hlast
    | loadRouteData =>
      rcases ok with _ | _
      · rw [poll_loadRouteData_fail hpc]; exact hlast
      · rw [poll_loadRouteData_ok hpc]; exact hlast
    | swap => rw [poll_swap hpc]; exact hcur
    | loadChanges => rw [poll_loadChanges hpc]; exact hlast
    | publish ch => rw [poll_publish hpc]; exact hlast
    | removeChanges => rw [poll_removeChanges hpc]; exact hlast
    | reload =>
      rcases ok with _ | _
      · rw [poll_reload_fail hpc]; exact hlast
      · rw [poll_reload_ok hpc]; exact hlast
    | reloadSwap => rw [poll_reloadSwap hpc]; exact hcur

/-- **Routes are out of date by a bounded time only.** Take any moment of any run. At the end
of a cycle that started `wait_time` after it or later, and ever after, the map that
`get_hosts` reads has every edit that was written by that moment, announced or not, if the
loads of `RouteData` succeed in the cycles that start so late until then. -/
theorem edits_reach_map (hwait : 0 < waitTime) (edits : List Edit) (db : Db) (now : ℤ)
    (version : Option (Option ℤ)) (rows : Option (List RouteRow)) {route : Route}
    (hnew : Route.new version rows = some route) {pre mid : List Event}
    (hpre : Runs.run (step waitTime) (start edits db route now) pre = .ok w)
    (hmid : Runs.run (step waitTime) w mid = .ok u)
    (hload : Runs.Along (step waitTime) (LoadsFrom (w.clock + waitTime)) w mid)
    (hpc : u.checker.pc = .loadVersion) (hlate : w.clock + waitTime ≤ u.checker.currentTime)
    (post : List Event) :
    Runs.Always (step waitTime) (fun _ v => Reads edits db.routeData w.hist.log v) u post := by
  have hw := (aged_start (Route.new_pointers hnew) edits db now).of_run hpre
  have hnow : Aged edits db.routeData w.hist.log w.clock w := ⟨hw.tables, hw.maps, hw.since.now⟩
  have hu : Aged edits db.routeData w.hist.log w.clock u := hnow.of_run hmid
  have hdue : Due waitTime w.clock u :=
    Due.run hwait (due_now hwait hw.since.current) hload mid (List.prefix_refl _) u hmid
  have hlast : w.clock < u.checker.lastLoadTime := by
    unfold Due at hdue
    rw [hpc] at hdue
    exact hdue hlate
  have hall : Runs.Always (step waitTime) (fun _ v => Aged edits db.routeData w.hist.log w.clock v ∧
      w.clock < v.checker.lastLoadTime) u post := by
    refine Runs.always_of_step ⟨hu, hlast⟩ ?_
    intro _ e _ v _ hv
    obtain ⟨hA, hl⟩ := hv
    obtain ⟨x, hx, hAx⟩ := hA.step e waitTime
    exact ⟨x, hx, hAx, hA.lastLoad_step hl hx⟩
  exact hall.imp fun _ v hv => hv.1.reads hv.2

/-- A request that has written `RouteData` and gone no further. -/
def unannounced : World :=
  ((start [.add 1 1 0 80] emptyDb emptyRoute 100).poll 10 true).web 0 ⟨.add 1 1 0 80, .data⟩

/-- The checker ten seconds later: it finds no new version. -/
def reloaded : World :=
  (({ unannounced with clock := unannounced.clock + (10 : ℕ) }.poll 10 true).poll 10 true).poll 10 true

theorem edits_reach_map_unannounced :
    Runs.Always (step 10) (fun _ v => Reads [.add 1 1 0 80] emptyDb.routeData [0] v) reloaded
      [.poll false] := by
  have hnew : Route.new (some (some 0)) (some []) = some emptyRoute := rfl
  have hpre : Runs.run (step 10) (start [.add 1 1 0 80] emptyDb emptyRoute 100) [.poll true, .web 0] =
      .ok unannounced := rfl
  have hmid : Runs.run (step 10) unannounced [.tick 10, .poll true, .poll true, .poll true] =
      .ok reloaded := rfl
  have hcheck : Runs.check (step 10) (fun w e => decide (LoadsFrom (100 + 10) [] w e)) unannounced
      [.tick 10, .poll true, .poll true, .poll true] = true := by decide +kernel
  have hpc : reloaded.checker.pc = .loadVersion := by decide +kernel
  have hlate : unannounced.clock + 10 ≤ reloaded.checker.currentTime := by decide +kernel
  exact edits_reach_map (by decide) _ emptyDb 100 _ _ hnew hpre hmid
    (Runs.along_of_check hcheck fun _ _ _ h => of_decide_eq_true h) hpc hlate [.poll false]

end World

end LbRpc
