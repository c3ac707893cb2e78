import LbRpc.Proof.Packing
import LbRpc.Proof.Subscriptions

/-!
# Responses in the order of the maps

Workers answer `get_route` and push from the map that is installed when they look a key up,
while the checker goes on to the next one.

* `Answered`: responses are made from the maps, and on each connection in their order.
* `Counted`: a worker was given at most one task for each call of `publish`.
* `DnsServer.move_answered`, `DnsServer.move_counted`: every move keeps them.
-/

namespace LbRpc

/-- What a route map holds under a key. -/
def mapHosts (k : UInt64) (map : RouteMap) : Finset UInt64 := (AList.lookup k map).getD ∅

/-- A response with its number is made from the map of that number. -/
def FromMap (maps : List RouteMap) (a : Lbrss.GetRouteResponse × ℕ) : Prop :=
  ∃ map walk, maps[a.2]? = some map ∧ Walks walk (mapHosts (key a.1.modid a.1.cmdid) map) ∧
    a.1 = routeResponse a.1.modid a.1.cmdid walk

theorem FromMap.append {maps : List RouteMap} {a : Lbrss.GetRouteResponse × ℕ} (h : FromMap maps a)
    (map : RouteMap) : FromMap (maps ++ [map]) a := by
  obtain ⟨m, walk, hm, hrest⟩ := h
  exact ⟨m, walk, (List.getElem?_append_left (List.getElem?_eq_some_iff.1 hm).1).trans hm, hrest⟩

/-- The key that a job has looked up, with the hosts and the number of the map. -/
def Job.reading : Job → Option (UInt64 × Finset UInt64 × ℕ)
  | .respond _ req hosts map => some (key req.modid req.cmdid, hosts, map)
  | .push _ mod hosts map _ => some (key (pushPair mod).1 (pushPair mod).2, hosts, map)
  | _ => none

namespace DnsServer

variable {n : ℕ} {p : Process n} {s s' : DnsServer n} {e : Event n} {v w : Fin n} {c d : ConnAddr}
  {conn conn' : DnsConn n} {fd : Fd} {mod : UInt64}

/-! ## Responses come from the maps, in their order -/

/-- **Responses are made from the maps**, and none from an older map than the one before it
on its connection. -/
structure Answered (s : DnsServer n) : Prop where
  pointers : s.checker.route.dataPointer ≠ s.checker.route.tempPointer
  current : s.maps[s.mapNumber]? = some s.checker.route.data
  sent : ∀ c conn, s.heap.read c = some conn → ∀ a ∈ conn.sent, FromMap s.maps a ∧ a.2 ≤ s.mapNumber
  order : ∀ c conn, s.heap.read c = some conn → conn.sent.Pairwise fun a b => a.2 ≤ b.2
  reading : ∀ w k hosts i, (s.workers w).job.reading = some (k, hosts, i) →
    (∃ map, s.maps[i]? = some map ∧ hosts = mapHosts k map) ∧
      ∀ c conn, s.heap.read c = some conn → conn.loop = w → ∀ a ∈ conn.sent, a.2 ≤ i
  published : ∀ a ∈ s.published, a.map ≤ s.mapNumber

theorem le_mapNumber {i : ℕ} {map : RouteMap} (h : s.maps[i]? = some map) : i ≤ s.mapNumber := by
  have hlt := (List.getElem?_eq_some_iff.1 h).1
  unfold mapNumber
  omega

/-- Moves that send nothing, look nothing up and leave the checker alone. -/
theorem Answered.frame (h : Answered s) (hchecker : s'.checker = s.checker) (hmaps : s'.maps = s.maps)
    (hpub : ∀ a ∈ s'.published, a.map ≤ s.mapNumber)
    (hback : ∀ c conn', s'.heap.read c = some conn' → conn'.sent = [] ∨
      ∃ conn, s.heap.read c = some conn ∧ conn'.loop = conn.loop ∧ conn'.sent = conn.sent)
    (hjob : ∀ w, (s'.workers w).job.reading = none ∨ (s'.workers w).job.reading = (s.workers w).job.reading) :
    Answered s' := by
  have hnumber : s'.mapNumber = s.mapNumber := by rw [mapNumber, mapNumber, hmaps]
  refine {
    pointers := hchecker ▸ h.pointers, current := ?current, sent := ?sent, order := ?order
    reading := ?reading, published := ?published }
  case current =>
    rw [hnumber, hmaps, hchecker]
    exact h.current
  case sent =>
    intro c b hc a ha
    rw [hnumber, hmaps]
    rcases hback c b hc with hnil | ⟨conn, hread, -, hsent⟩
    · rw [hnil] at ha
      cases ha
    · exact h.sent c conn hread a (hsent ▸ ha)
  case order =>
    intro c b hc
    rcases hback c b hc with hnil | ⟨conn, hread, -, hsent⟩
    · rw [hnil]
      exact List.Pairwise.nil
    · rw [hsent]
      exact h.order c conn hread
  case reading =>
    intro w k hosts i hr
    rcases hjob w with hnone | hsame
    · rw [hnone] at hr
      cases hr
    · rw [hsame] at hr
      obtain ⟨hmap, hle⟩ := h.reading w k hosts i hr
      rw [hmaps]
      refine ⟨hmap, fun c b hc hloop a ha => ?_⟩
      rcases hback c b hc with hnil | ⟨conn, hread, hloop', hsent⟩
      · rw [hnil] at ha
        cases ha
      · exact hle c conn hread (hloop'.symm.trans hloop) a (hsent ▸ ha)
  case published =>
    rw [hnumber]
    exact hpub

/-- A worker takes up something else. -/
theorem Answered.ofWorker (h : Answered s) (w : Fin n) {k : DnsWorker}
    (hworkers : s'.workers = Function.update s.workers w k) (hchecker : s'.checker = s.checker)
    (hmaps : s'.maps = s.maps) (hpub : s'.published = s.published)
    (hback : ∀ c conn', s'.heap.read c = some conn' → conn'.sent = [] ∨
      ∃ conn, s.heap.read c = some conn ∧ conn'.loop = conn.loop ∧ conn'.sent = conn.sent)
    (hjob : k.job.reading = none ∨ k.job.reading = (s.workers w).job.reading) : Answered s' := by
  refine h.frame hchecker hmaps (hpub ▸ h.published) hback fun v => ?_
  rw [hworkers]
  by_cases hv : v = w
  · subst hv
    rw [Function.update_self]
    exact hjob
  · rw [Function.update_of_ne hv]
    exact Or.inr rfl

theorem same_sent (hheap : s'.heap = s.heap) : ∀ c conn', s'.heap.read c = some conn' → conn'.sent = [] ∨
    ∃ conn, s.heap.read c = some conn ∧ conn'.loop = conn.loop ∧ conn'.sent = conn.sent :=
  fun _ conn hc => Or.inr ⟨conn, hheap ▸ hc, rfl, rfl⟩

theorem modify_sent {g : DnsConn n → DnsConn n} (hheap : s'.heap = s.heap.modify c g)
    (hg : ∀ b, (g b).loop = b.loop ∧ (g b).sent = b.sent) :
    ∀ d conn', s'.heap.read d = some conn' → conn'.sent = [] ∨
      ∃ conn, s.heap.read d = some conn ∧ conn'.loop = conn.loop ∧ conn'.sent = conn.sent := by
  intro d conn' hd
  rw [hheap] at hd
  rcases Heap.read_modify_cases hd with ⟨rfl, b, hb, rfl⟩ | ⟨-, hd'⟩
  · exact Or.inr ⟨b, hb, hg b⟩
  · exact Or.inr ⟨conn', hd', rfl, rfl⟩

/-- A worker looks up a key in the map of this moment. -/
theorem Answered.look (h : Answered s) (w : Fin n) {j : Job} {k : UInt64}
    (hj : j.reading = some (k, s.checker.route.hostsUnder k, s.mapNumber)) :
    Answered (s.setJob w j) := by
  refine ⟨h.pointers, h.current, h.sent, h.order, fun v k' hosts i hr => ?_, h.published⟩
  by_cases hv : v = w
  · subst hv
    rw [setJob, modifyWorker_self] at hr
    have heq : some (k, s.checker.route.hostsUnder k, s.mapNumber) = some (k', hosts, i) := hj.symm.trans hr
    cases heq
    exact ⟨⟨_, h.current, rfl⟩, fun c conn hc _ a ha => (h.sent c conn hc a ha).2⟩
  · rw [setJob, modifyWorker_ne hv] at hr
    exact h.reading v k' hosts i hr

/-- A worker sends what it has looked up, on a connection of its own. -/
theorem Answered.send (h : Answered s) {modid cmdid : Int32} {hosts : Finset UInt64} {i : ℕ}
    {walk : List UInt64} {room : Bool} {j : Job}
    (hr : (s.workers w).job.reading = some (key modid cmdid, hosts, i)) (hwalk : Walks walk hosts)
    (hc : s.heap.read c = some conn) (hloop : conn.loop = w) (hj : j.reading = none) :
    Answered ((s.modifyConn c fun b =>
      if room then { b with sent := b.sent ++ [(routeResponse modid cmdid walk, i)] } else b).setJob w j) := by
  obtain ⟨⟨map, hmap, hhosts⟩, hle⟩ := h.reading w _ hosts i hr
  have hnew : FromMap s.maps (routeResponse modid cmdid walk, i) := ⟨map, walk, hmap, hhosts ▸ hwalk, rfl⟩
  -- what the connection has sent, afterwards
  have hread : ∀ d b, (s.heap.modify c fun b =>
      if room then { b with sent := b.sent ++ [(routeResponse modid cmdid walk, i)] } else b).read d = some b →
      ∃ b', s.heap.read d = some b' ∧ b.loop = b'.loop ∧ (b.sent = b'.sent ∨
        (b'.loop = w ∧ b.sent = b'.sent ++ [(routeResponse modid cmdid walk, i)])) := by
    intro d b hd
    rcases Heap.read_modify_known hc hd with ⟨rfl, rfl⟩ | hd'
    · cases room
      · exact ⟨conn, hc, rfl, Or.inl rfl⟩
      · exact ⟨conn, hc, rfl, Or.inr ⟨hloop, rfl⟩⟩
    · exact ⟨b, hd', rfl, Or.inl rfl⟩
  refine {
    pointers := h.pointers, current := h.current, published := h.published
    sent := ?sent, order := ?order, reading := ?reading }
  case sent =>
    intro d b hd a ha
    obtain ⟨b', hb', -, hsent | ⟨-, hsent⟩⟩ := hread d b hd
    · exact h.sent d b' hb' a (hsent ▸ ha)
    · rw [hsent, List.mem_append, List.mem_singleton] at ha
      rcases ha with ha | rfl
      · exact h.sent d b' hb' a ha
      · exact ⟨hnew, le_mapNumber hmap⟩
  case order =>
    -- only the worker of a connection sends on it, so nothing newer was sent meanwhile
    intro d b hd
    obtain ⟨b', hb', -, hsent | ⟨hloop', hsent⟩⟩ := hread d b hd
    · rw [hsent]
      exact h.order d b' hb'
    · rw [hsent, List.pairwise_append]
      refine ⟨h.order d b' hb', List.pairwise_singleton _ _, fun a ha a' ha' => ?_⟩
      rw [List.mem_singleton.1 ha']
      exact hle d b' hb' hloop' a ha
  case reading =>
    intro v k hosts' i' hr'
    by_cases hv : v = w
    · subst hv
      rw [setJob, modifyWorker_self] at hr'
      have hnone : none = some (k, hosts', i') := hj.symm.trans hr'
      cases hnone
    · rw [setJob, modifyWorker_ne hv] at hr'
      obtain ⟨hmap', hle'⟩ := h.reading v k hosts' i' hr'
      refine ⟨hmap', fun d b hd hb a ha => ?_⟩
      obtain ⟨b', hb', hloop', hsent | ⟨hw, -⟩⟩ := hread d b hd
      · exact hle' d b' hb' (hloop'.symm.trans hb) a (hsent ▸ ha)
      · exact absurd ((hb.symm.trans hloop').trans hw) hv

/-- A statement of the checker other than a `swap`. -/
theorem Answered.statement (h : Answered s) {waitTime now : ℤ} {ok : Bool} {db : Db} (sending : Option ℕ)
    (hswap : s.checker.pc ≠ .swap) (hreload : s.checker.pc ≠ .reloadSwap) :
    Answered { s with sending := sending, checker := (s.checker.step waitTime ok now db).1 } := by
  refine ⟨Checker.step_pointers _ _ _ _ h.pointers, ?_, h.sent, h.order, h.reading, h.published⟩
  show s.maps[s.mapNumber]? = some (s.checker.step waitTime ok now db).1.route.data
  rw [Checker.step_data _ _ _ _ h.pointers hswap hreload]
  exact h.current

theorem Answered.swap (h : Answered s) {waitTime now : ℤ} {ok : Bool} {db : Db} :
    Answered { s with
      checker := (s.checker.step waitTime ok now db).1
      maps := s.maps ++ [(s.checker.step waitTime ok now db).1.route.data] } := by
  have hnumber : ∀ t : DnsServer n, t.maps = s.maps ++ [(s.checker.step waitTime ok now db).1.route.data] →
      t.mapNumber = s.maps.length := by
    intro t ht
    rw [mapNumber, ht, List.length_append, List.length_singleton, Nat.add_sub_cancel]
  have hle : s.mapNumber ≤ s.maps.length := Nat.sub_le _ _
  refine {
    pointers := Checker.step_pointers _ _ _ _ h.pointers, order := h.order
    current := ?current, sent := ?sent, reading := ?reading, published := ?published }
  case current =>
    rw [hnumber _ rfl]
    exact List.getElem?_concat_length
  case sent =>
    intro c conn hc a ha
    obtain ⟨hfrom, hbound⟩ := h.sent c conn hc a ha
    refine ⟨hfrom.append _, ?_⟩
    rw [hnumber _ rfl]
    exact hbound.trans hle
  case reading =>
    intro w k hosts i hr
    obtain ⟨⟨map, hmap, hhosts⟩, hrest⟩ := h.reading w k hosts i hr
    exact ⟨⟨map, (List.getElem?_append_left (List.getElem?_eq_some_iff.1 hmap).1).trans hmap, hhosts⟩, hrest⟩
  case published =>
    intro a ha
    rw [hnumber _ rfl]
    exact (h.published a ha).trans hle

end DnsServer

/-! ## Every call of `publish` gives every worker a task -/

/-- A job that is part of `push_change_task`. -/
def Job.running : Job → ℕ
  | .makePublishMap => 1
  | .pushNext _ => 1
  | .pushHosts _ _ _ => 1
  | .push _ _ _ _ _ => 1
  | _ => 0

/-- The tasks that a worker was given so far. -/
def DnsWorker.tasks (k : DnsWorker) : ℕ :=
  k.tasksRun + k.job.running + k.readyTasks + k.queue.count .newTask

namespace DnsServer

variable {n : ℕ} {p : Process n} {s s' : DnsServer n} {e : Event n} {v w : Fin n} {c d : ConnAddr}
  {conn conn' : DnsConn n} {fd : Fd} {mod : UInt64}

/-- Whether `send_task` has still to come to a worker. -/
def awaiting (s : DnsServer n) (w : Fin n) : ℕ :=
  match s.sending with
  | none => 0
  | some i => if i ≤ w then 1 else 0

/-- **A worker was given at most one task for each call of `publish`**, and the one of a call
under way at most when `send_task` has come to it. -/
structure Counted (s : DnsServer n) : Prop where
  tasks : ∀ w, (s.workers w).tasks + s.awaiting w ≤ s.published.length
  publishing : ∀ i, s.sending = some i → ∃ changes, s.checker.pc = .publish changes

/-- A move of one worker that gets no new task. -/
theorem Counted.ofWorker (h : Counted s) (w : Fin n) {k : DnsWorker}
    (hworkers : s'.workers = Function.update s.workers w k) (hchecker : s'.checker = s.checker)
    (hsending : s'.sending = s.sending) (hpub : s'.published = s.published)
    (htasks : k.tasks = (s.workers w).tasks) : Counted s' := by
  refine ⟨fun v => ?_, fun i hi => ?_⟩
  · have hsame : (s'.workers v).tasks = (s.workers v).tasks := by
      rw [hworkers]
      by_cases hv : v = w
      · subst hv
        rw [Function.update_self]
        exact htasks
      · rw [Function.update_of_ne hv]
    rw [hsame, awaiting, hsending, hpub]
    exact h.tasks v
  · rw [hchecker]
    exact h.publishing i (hsending ▸ hi)

theorem move_counted (h : Counted s) (hm : Move p s e s') : Counted s' := by
  have hjob : ∀ {w : Fin n} {j j' : Job}, (s.workers w).job = j → j'.running = j.running →
      { s.workers w with job := j' }.tasks = (s.workers w).tasks := by
    intro w j j' hj hrun
    unfold DnsWorker.tasks
    rw [hj]
    dsimp only
    rw [hrun]
  cases hm with
  | skip => exact h
  | accept w connfd h0 hnew =>
    refine h.ofWorker w rfl rfl rfl rfl ?_
    simp [DnsWorker.tasks]
  | newTask w hjob hq =>
    refine h.ofWorker w rfl rfl rfl rfl ?_
    simp only [DnsWorker.tasks, hq, List.count_cons_self]
    omega
  | newConn w hjob hq =>
    refine h.ofWorker w rfl rfl rfl rfl ?_
    simp [DnsWorker.tasks, hq, hjob, Job.running]
  | known w hj hio hc hl hk => exact h.ofWorker w rfl rfl rfl rfl (hjob hj rfl)
  | unknown w hj hio hc hl hk => exact h.ofWorker w rfl rfl rfl rfl (hjob hj rfl)
  | hangUp w hj hio hc hl => exact h.ofWorker w rfl rfl rfl rfl (hjob hj rfl)
  | runTask w hjob hk =>
    refine h.ofWorker w rfl rfl rfl rfl ?_
    simp only [DnsWorker.tasks, hk, hjob, Job.running]
    omega
  | addIoEvent w hj hc => exact h.ofWorker w rfl rfl rfl rfl (hjob hj rfl)
  | increaseConn w hj hc => exact h.ofWorker w rfl rfl rfl rfl (hjob hj rfl)
  | subscribe w hj hc => exact h.ofWorker w rfl rfl rfl rfl (hjob hj rfl)
  | getHosts w hj => exact h.ofWorker w rfl rfl rfl rfl (hjob hj rfl)
  | respond w hj hc hwalk => exact h.ofWorker w rfl rfl rfl rfl (hjob hj rfl)
  | unsubscribe w hj hc hmod => exact h.ofWorker w rfl rfl rfl rfl (hjob hj rfl)
  | cleared w hj => exact h.ofWorker w rfl rfl rfl rfl (hjob hj rfl)
  | decreaseConn w hj hc => exact h.ofWorker w rfl rfl rfl rfl (hjob hj rfl)
  | delIoEvent w hj hc => exact h.ofWorker w rfl rfl rfl rfl (hjob hj rfl)
  | close w hj hc => exact h.ofWorker w rfl rfl rfl rfl (hjob hj rfl)
  | makePublishMap w hj hfds => exact h.ofWorker w rfl rfl rfl rfl (hjob hj rfl)
  | pushNext w hj hmem => exact h.ofWorker w rfl rfl rfl rfl (hjob hj rfl)
  | pushHosts w hj => exact h.ofWorker w rfl rfl rfl rfl (hjob hj rfl)
  | pushNull w hj hwalk hc => exact h.ofWorker w rfl rfl rfl rfl (hjob hj rfl)
  | push w hj hwalk hfd hc => exact h.ofWorker w rfl rfl rfl rfl (hjob hj rfl)
  | pushed w hjob =>
    refine h.ofWorker w rfl rfl rfl rfl ?_
    simp only [DnsWorker.tasks, hjob, Job.running]
  | @sendTask i hi ok now db hs =>
    -- the worker gets the task that it was waiting for; the others wait on as before
    refine ⟨fun v => ?_, fun j _ => h.publishing i hs⟩
    have hold := h.tasks v
    show ((s.send ⟨i, hi⟩ .newTask).workers v).tasks + (if i + 1 ≤ v then 1 else 0) ≤ s.published.length
    rw [awaiting, hs] at hold
    by_cases hv : v = ⟨i, hi⟩
    · subst hv
      rw [send, modifyWorker_self]
      have hcount : List.count TaskMsg.newTask [TaskMsg.newTask] = 1 := rfl
      simp only [DnsWorker.tasks, List.count_append, hcount, le_refl, if_true] at hold ⊢
      split <;> omega
    · have hne : (v : ℕ) ≠ i := fun heq => hv (Fin.ext heq)
      rw [send, modifyWorker_ne hv]
      dsimp only at hold
      split at hold <;> split <;> omega
  | @sentAll i hi ok now db hs =>
    refine ⟨fun v => ?_, fun j hj => by cases hj⟩
    have hold := h.tasks v
    show (s.workers v).tasks + 0 ≤ s.published.length
    omega
  | @publish changes ok now db hs hpc =>
    -- one call of `publish` more, and from here every worker waits for its task
    refine ⟨fun v => ?_, fun _ _ => ⟨changes, hpc⟩⟩
    have hold := h.tasks v
    show (s.workers v).tasks + (if 0 ≤ (v : ℕ) then 1 else 0) ≤ (s.published ++ [_]).length
    rw [awaiting, hs] at hold
    simp only [List.length_append, List.length_singleton, Nat.zero_le, if_true]
    omega
  | swap hs hpc => exact ⟨h.tasks, fun i hi => by rw [show s.sending = some i from hi] at hs; cases hs⟩
  | statement hs hpc hswap hreload =>
    exact ⟨h.tasks, fun i hi => by rw [show s.sending = some i from hi] at hs; cases hs⟩

/-- **Every move keeps the responses in order.** -/
theorem move_answered (hw : Wired p s) (ha : Aimed p s) (hc : Counted s) (h : Answered s)
    (hm : Move p s e s') : Answered s' := by
  cases hm with
  | skip => exact h
  | accept w connfd h0 hnew => exact h.ofWorker w rfl rfl rfl rfl (same_sent rfl) (Or.inr rfl)
  | newTask w hjob hq => exact h.ofWorker w rfl rfl rfl rfl (same_sent rfl) (Or.inr rfl)
  | newConn w hjob hq =>
    refine h.ofWorker w rfl rfl rfl rfl (fun c b hc => ?_) (Or.inl rfl)
    rcases Heap.read_alloc_cases hc with ⟨-, rfl⟩ | hc'
    · exact Or.inl rfl
    · exact Or.inr ⟨b, hc', rfl, rfl⟩
  | known w hjob hio hc hl hk => exact h.ofWorker w rfl rfl rfl rfl (same_sent rfl) (Or.inl rfl)
  | unknown w hjob hio hc hl hk =>
    exact h.ofWorker w rfl rfl rfl rfl (modify_sent rfl fun _ => ⟨rfl, rfl⟩) (Or.inl rfl)
  | hangUp w hjob hio hc hl => exact h.ofWorker w rfl rfl rfl rfl (same_sent rfl) (Or.inl rfl)
  | runTask w hjob hk => exact h.ofWorker w rfl rfl rfl rfl (same_sent rfl) (Or.inl rfl)
  | addIoEvent w hjob hc => exact h.ofWorker w rfl rfl rfl rfl (same_sent rfl) (Or.inl rfl)
  | increaseConn w hjob hc => exact h.ofWorker w rfl rfl rfl rfl (same_sent rfl) (Or.inl rfl)
  | subscribe w hjob hc => exact h.ofWorker w rfl rfl rfl rfl (same_sent rfl) (Or.inl rfl)
  | getHosts w hjob => exact h.look w rfl
  | respond w hjob hread hwalk =>
    obtain ⟨hloop, -⟩ := hw.ofJob hread (by rw [hjob]; rfl)
    exact h.send (by rw [hjob]; rfl) hwalk hread hloop rfl
  | unsubscribe w hjob hc hmod => exact h.ofWorker w rfl rfl rfl rfl (same_sent rfl) (Or.inl rfl)
  | cleared w hjob => exact h.ofWorker w rfl rfl rfl rfl (modify_sent rfl fun _ => ⟨rfl, rfl⟩) (Or.inl rfl)
  | decreaseConn w hjob hc => exact h.ofWorker w rfl rfl rfl rfl (same_sent rfl) (Or.inl rfl)
  | delIoEvent w hjob hc => exact h.ofWorker w rfl rfl rfl rfl (same_sent rfl) (Or.inl rfl)
  | close w hjob hc => exact h.ofWorker w rfl rfl rfl rfl (modify_sent rfl fun _ => ⟨rfl, rfl⟩) (Or.inl rfl)
  | makePublishMap w hjob hfds => exact h.ofWorker w rfl rfl rfl rfl (same_sent rfl) (Or.inl rfl)
  | pushNext w hjob hmem => exact h.ofWorker w rfl rfl rfl rfl (same_sent rfl) (Or.inl rfl)
  | pushHosts w hjob => exact h.look w rfl
  | pushNull w hjob hwalk hc => exact h.ofWorker w rfl rfl rfl rfl (same_sent rfl) (Or.inl rfl)
  | @push w fd mod hosts map rest walk room c conn hjob hwalk hfd hread =>
    -- `conns` maps the descriptor to the connection the pair was made for
    have hmem : (fd, mod) ∈ (s.workers w).job.pairs := by
      rw [hjob]
      exact Finset.mem_insert_self ..
    obtain ⟨d, b, hd, hloop, rfl, -, -, hconns, -⟩ := target_serving hw ha hmem
    rw [hconns] at hfd
    cases hfd
    exact h.send (by rw [hjob]; rfl) hwalk hd hloop rfl
  | pushed w hjob => exact h.ofWorker w rfl rfl rfl rfl (same_sent rfl) (Or.inl rfl)
  | sendTask hi hs => exact h.ofWorker ⟨_, hi⟩ rfl rfl rfl rfl (same_sent rfl) (Or.inr rfl)
  | @sentAll i hi ok now db hs =>
    -- the checker goes on behind `publish`, which is no `swap`
    obtain ⟨changes, hpc⟩ := hc.publishing i hs
    exact h.statement none (by rw [hpc]; exact fun heq => by cases heq)
      (by rw [hpc]; exact fun heq => by cases heq)
  | publish hs hpc =>
    refine h.frame rfl rfl (fun a ha => ?_) (same_sent rfl) fun _ => Or.inr rfl
    rcases List.mem_append.1 ha with ha | ha
    · exact h.published a ha
    · rw [List.mem_singleton.1 ha]
  | swap hs hpc => exact h.swap
  | statement hs hpc hswap hreload => exact h.statement s.sending hswap hreload

/-- No client has connected: nothing was sent, nothing was published. -/
theorem boot_counted (p : Process n) : Counted p.boot :=
  ⟨fun _ => le_refl 0, fun _ hi => by cases hi⟩

theorem boot_answered (p : Process n) : Answered p.boot := by
  obtain ⟨version, rows, hnew⟩ := p.route_new
  refine ⟨Route.new_pointers hnew, rfl, fun c conn hc => ?_, fun c conn hc => ?_, fun w k hosts i hr => ?_,
    fun a ha => ?_⟩
  · cases hc
  · cases hc
  · cases hr
  · cases ha

end DnsServer

end LbRpc
