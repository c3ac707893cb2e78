import LbRpc.Base.Runs
import LbRpc.Dns.Server

/-!
# What one step of the DNS service does

* `DnsServer.Move`: each way in which a step can change the process, with what is known of
  the state before it.
* `DnsServer.step_move`: a step that succeeds is one of these.
-/

namespace LbRpc

/-- The connection that a job is about, and that only this job uses meanwhile. -/
def Job.conn : Job → Option ConnAddr
  | .addIoEvent c => some c
  | .increaseConn c => some c
  | .subscribe c _ => some c
  | .getHosts c _ => some c
  | .respond c _ _ _ => some c
  | .unsubscribe c _ => some c
  | .decreaseConn c => some c
  | .delIoEvent c => some c
  | .close c => some c
  | _ => none

namespace DnsServer

variable {n : ℕ} {p : Process n} {s s' : DnsServer n} {e : Event n} {v w : Fin n} {c d : ConnAddr}
  {conn : DnsConn n} {f : DnsWorker → DnsWorker} {g : DnsConn n → DnsConn n}

@[simp] theorem modifyWorker_self : (s.modifyWorker w f).workers w = f (s.workers w) :=
  Function.update_self ..

theorem modifyWorker_ne (h : v ≠ w) : (s.modifyWorker w f).workers v = s.workers v :=
  Function.update_of_ne h ..

/-- **One step.** -/
inductive Move (p : Process n) (s : DnsServer n) : Event n → DnsServer n → Prop
  | skip (e : Event n) : Move p s e s
  | accept (w : Fin n) (connfd : Fd) (h0 : 0 ≤ connfd) (hnew : connfd ∉ s.openFds) :
    Move p s (.accept w connfd) { s.send w (.newConn connfd) with openFds := insert connfd s.openFds }
  | newTask (w : Fin n) {queue : List TaskMsg} (hjob : (s.workers w).job = .idle)
      (hq : (s.workers w).queue = .newTask :: queue) :
    Move p s (.recv w)
      (s.modifyWorker w fun k => { k with queue := queue, readyTasks := k.readyTasks + 1 })
  | newConn (w : Fin n) {connfd : Fd} {queue : List TaskMsg} (hjob : (s.workers w).job = .idle)
      (hq : (s.workers w).queue = .newConn connfd :: queue) :
    Move p s (.recv w)
      ({ s with heap := s.heap.alloc ⟨connfd, w, some ∅, []⟩ }.modifyWorker w fun k =>
        { k with queue := queue, job := .addIoEvent s.heap.next })
  | known (w : Fin n) {fd : Fd} {req : Lbrss.GetRouteRequest} {c : ConnAddr} {conn : DnsConn n}
      {subList : Finset UInt64} (hjob : (s.workers w).job = .idle)
      (hio : (s.workers w).ioEvs fd = some c) (hc : s.heap.read c = some conn)
      (hl : conn.param = some subList) (hk : subscribeKey req ∈ subList) :
    Move p s (.request w fd req) (s.setJob w (.getHosts c req))
  | unknown (w : Fin n) {fd : Fd} {req : Lbrss.GetRouteRequest} {c : ConnAddr} {conn : DnsConn n}
      {subList : Finset UInt64} (hjob : (s.workers w).job = .idle)
      (hio : (s.workers w).ioEvs fd = some c) (hc : s.heap.read c = some conn)
      (hl : conn.param = some subList) (hk : subscribeKey req ∉ subList) :
    Move p s (.request w fd req)
      ((s.modifyConn c fun b => { b with param := some (insert (subscribeKey req) subList) }).setJob w
        (.subscribe c req))
  | hangUp (w : Fin n) {fd : Fd} {c : ConnAddr} {conn : DnsConn n} {subList : Finset UInt64}
      (hjob : (s.workers w).job = .idle) (hio : (s.workers w).ioEvs fd = some c)
      (hc : s.heap.read c = some conn) (hl : conn.param = some subList) :
    Move p s (.hangUp w fd) (s.setJob w (.unsubscribe c subList))
  | runTask (w : Fin n) {k : ℕ} (hjob : (s.workers w).job = .idle)
      (hk : (s.workers w).readyTasks = k + 1) :
    Move p s (.runTask w)
      (s.modifyWorker w fun v => { v with readyTasks := k, job := .makePublishMap })
  | addIoEvent (w : Fin n) {c : ConnAddr} {conn : DnsConn n}
      (hjob : (s.workers w).job = .addIoEvent c) (hc : s.heap.read c = some conn) :
    Move p s (.go w) (s.modifyWorker w fun k =>
      { k with ioEvs := Function.update k.ioEvs conn.connfd (some c), job := .increaseConn c })
  | increaseConn (w : Fin n) {c : ConnAddr} {conn : DnsConn n}
      (hjob : (s.workers w).job = .increaseConn c) (hc : s.heap.read c = some conn) :
    Move p s (.go w)
      ({ s with conns := Function.update s.conns conn.connfd (some c) }.setJob w .idle)
  | subscribe (w : Fin n) {c : ConnAddr} {conn : DnsConn n} {req : Lbrss.GetRouteRequest}
      (hjob : (s.workers w).job = .subscribe c req) (hc : s.heap.read c = some conn) :
    Move p s (.go w)
      ({ s with bookList := bookInsert (subscribeKey req) conn.connfd s.bookList }.setJob w
        (.getHosts c req))
  | getHosts (w : Fin n) {c : ConnAddr} {req : Lbrss.GetRouteRequest}
      (hjob : (s.workers w).job = .getHosts c req) :
    Move p s (.go w)
      (s.setJob w (.respond c req (s.checker.route.getHosts req.modid req.cmdid) s.mapNumber))
  | respond (w : Fin n) {c : ConnAddr} {conn : DnsConn n} {req : Lbrss.GetRouteRequest}
      {hosts : Finset UInt64} {map : ℕ} {walk : List UInt64} {room : Bool}
      (hjob : (s.workers w).job = .respond c req hosts map) (hc : s.heap.read c = some conn)
      (hwalk : Walks walk hosts) :
    Move p s (.respond w walk room) ((s.modifyConn c fun b =>
      if room then { b with sent := b.sent ++ [(routeResponse req.modid req.cmdid walk, map)] }
      else b).setJob w .idle)
  | unsubscribe (w : Fin n) {c : ConnAddr} {conn : DnsConn n} {rest : Finset UInt64} {mod : UInt64}
      (hjob : (s.workers w).job = .unsubscribe c rest) (hc : s.heap.read c = some conn)
      (hmod : mod ∈ rest) :
    Move p s (.unsubscribe w mod)
      ({ s with bookList := bookErase mod conn.connfd s.bookList }.setJob w
        (.unsubscribe c (rest.erase mod)))
  | cleared (w : Fin n) {c : ConnAddr} (hjob : (s.workers w).job = .unsubscribe c ∅) :
    Move p s (.go w)
      ((s.modifyConn c fun b => { b with param := none }).setJob w (.decreaseConn c))
  | decreaseConn (w : Fin n) {c : ConnAddr} {conn : DnsConn n}
      (hjob : (s.workers w).job = .decreaseConn c) (hc : s.heap.read c = some conn) :
    Move p s (.go w)
      ({ s with conns := Function.update s.conns conn.connfd none }.setJob w (.delIoEvent c))
  | delIoEvent (w : Fin n) {c : ConnAddr} {conn : DnsConn n}
      (hjob : (s.workers w).job = .delIoEvent c) (hc : s.heap.read c = some conn) :
    Move p s (.go w) (s.modifyWorker w fun k =>
      { k with ioEvs := Function.update k.ioEvs conn.connfd none, job := .close c })
  | close (w : Fin n) {c : ConnAddr} {conn : DnsConn n}
      (hjob : (s.workers w).job = .close c) (hc : s.heap.read c = some conn) :
    Move p s (.go w) (({ s with openFds := s.openFds.erase conn.connfd }.modifyConn c fun b =>
      { b with connfd := -1 }).setJob w .idle)
  | makePublishMap (w : Fin n) {fds : Finset Fd} (hjob : (s.workers w).job = .makePublishMap)
      (hfds : ∀ fd ∈ fds, s.pushList fd ≠ none ∧ s.Online p w fd) :
    Move p s (.makePublishMap w fds)
      ({ s with pushList := fun fd => if fd ∈ fds then none else s.pushList fd }.setJob w
        (.pushNext (needPublish fds s.pushList)))
  | pushNext (w : Fin n) {fd : Fd} {mod : UInt64} {rest : Finset (Fd × UInt64)}
      (hjob : (s.workers w).job = .pushNext rest) (hmem : (fd, mod) ∈ rest) :
    Move p s (.pushNext w fd mod) (s.setJob w (.pushHosts fd mod (rest.erase (fd, mod))))
  | pushHosts (w : Fin n) {fd : Fd} {mod : UInt64} {rest : Finset (Fd × UInt64)}
      (hjob : (s.workers w).job = .pushHosts fd mod rest) :
    Move p s (.go w)
      (s.setJob w (.push fd mod (LbRpc.pushHosts mod s.checker.route) s.mapNumber rest))
  | pushNull (w : Fin n) {fd : Fd} {mod : UInt64} {hosts : Finset UInt64} {map : ℕ}
      {rest : Finset (Fd × UInt64)} {walk : List UInt64} {room : Bool}
      (hjob : (s.workers w).job = .push fd mod hosts map rest) (hwalk : Walks walk hosts)
      (hc : s.conns fd = none) :
    Move p s (.push w walk room) (s.setJob w (.pushNext rest))
  | push (w : Fin n) {fd : Fd} {mod : UInt64} {hosts : Finset UInt64} {map : ℕ}
      {rest : Finset (Fd × UInt64)} {walk : List UInt64} {room : Bool} {c : ConnAddr} {conn : DnsConn n}
      (hjob : (s.workers w).job = .push fd mod hosts map rest) (hwalk : Walks walk hosts)
      (hfd : s.conns fd = some c) (hc : s.heap.read c = some conn) :
    Move p s (.push w walk room) ((s.modifyConn c fun b =>
      if room then { b with sent := b.sent ++ [(pushResponse mod walk, map)] } else b).setJob w
        (.pushNext rest))
  | pushed (w : Fin n) (hjob : (s.workers w).job = .pushNext ∅) :
    Move p s (.go w)
      (s.modifyWorker w fun k => { k with job := .idle, tasksRun := k.tasksRun + 1 })
  | sendTask {i : ℕ} (h : i < n) {ok : Bool} {now : ℤ} {db : Db} (hs : s.sending = some i) :
    Move p s (.checker ok now db) { s.send ⟨i, h⟩ .newTask with sending := some (i + 1) }
  | sentAll {i : ℕ} (h : n ≤ i) {ok : Bool} {now : ℤ} {db : Db} (hs : s.sending = some i) :
    Move p s (.checker ok now db)
      { s with sending := none, checker := (s.checker.step p.waitTime ok now db).1 }
  | publish {changes : Finset UInt64} {ok : Bool} {now : ℤ} {db : Db} (hs : s.sending = none)
      (hpc : s.checker.pc = .publish changes) :
    Move p s (.checker ok now db)
      { s with
        pushList := pushInsert changes s.bookList s.pushList
        sending := some 0
        published := s.published ++ [⟨changes, s.mapNumber⟩] }
  | swap {ok : Bool} {now : ℤ} {db : Db} (hs : s.sending = none)
      (hpc : s.checker.pc = .swap ∨ s.checker.pc = .reloadSwap) :
    Move p s (.checker ok now db)
      { s with
        checker := (s.checker.step p.waitTime ok now db).1
        maps := s.maps ++ [(s.checker.step p.waitTime ok now db).1.route.data] }
  | statement {ok : Bool} {now : ℤ} {db : Db} (hs : s.sending = none)
      (hpc : ∀ changes, s.checker.pc ≠ .publish changes) (hswap : s.checker.pc ≠ .swap)
      (hreload : s.checker.pc ≠ .reloadSwap) :
    Move p s (.checker ok now db) { s with checker := (s.checker.step p.waitTime ok now db).1 }

theorem withConn_ok {f : DnsConn n → DnsServer n} (h : s.withConn c f = .ok s') :
    ∃ conn, s.heap.read c = some conn ∧ s' = f conn := by
  unfold withConn at h
  split at h
  · cases h
  · rename_i conn hc
    cases h
    exact ⟨conn, hc, rfl⟩

theorem begin_move (hjob : (s.workers w).job = .idle) (hw : e.beginner = some w)
    (h : s.begin w e = .ok s') : Move p s e s' := by
  cases e with
  | recv w' =>
    cases hw
    cases h
    unfold recv
    split
    · exact .skip _
    · rename_i queue hq
      exact .newTask w hjob hq
    · rename_i connfd queue hq
      exact .newConn w hjob hq
  | request w' fd req =>
    cases hw
    unfold begin at h
    dsimp only at h
    split at h
    · -- the loop knows no such descriptor
      cases h
      exact .skip _
    rename_i c hio
    obtain ⟨conn, hc, rfl⟩ := withConn_ok h
    unfold getRoute
    split
    · -- `conn->param` is null: `get_route` returns
      exact .skip _
    rename_i subList hl
    split
    · rename_i hk
      exact .known w hjob hio hc hl hk
    · rename_i hk
      exact .unknown w hjob hio hc hl hk
  | hangUp w' fd =>
    cases hw
    unfold begin at h
    dsimp only at h
    split at h
    · cases h
      exact .skip _
    rename_i c hio
    split at h
    · cases h
    rename_i conn hc
    split at h
    · cases h
    rename_i subList hl
    cases h
    exact .hangUp w hjob hio hc hl
  | runTask w' =>
    cases hw
    unfold begin at h
    dsimp only at h
    split at h
    · cases h
      exact .skip _
    rename_i k hk
    cases h
    exact .runTask w hjob hk
  | _ => cases hw

theorem go_move (h : s.go w = .ok s') : Move p s (.go w) s' := by
  unfold go at h
  cases hjob : (s.workers w).job with
  | addIoEvent c =>
    rw [hjob] at h
    obtain ⟨conn, hc, rfl⟩ := withConn_ok h
    exact .addIoEvent w hjob hc
  | increaseConn c =>
    rw [hjob] at h
    obtain ⟨conn, hc, rfl⟩ := withConn_ok h
    exact .increaseConn w hjob hc
  | subscribe c req =>
    rw [hjob] at h
    obtain ⟨conn, hc, rfl⟩ := withConn_ok h
    exact .subscribe w hjob hc
  | getHosts c req =>
    rw [hjob] at h
    cases h
    exact .getHosts w hjob
  | unsubscribe c rest =>
    -- the loop of `clear_subscribe` ends here; a key of it goes by `Event.unsubscribe`
    rw [hjob] at h
    dsimp only at h
    split at h
    · rename_i hrest
      subst hrest
      cases h
      exact .cleared w hjob
    · cases h
      exact .skip _
  | decreaseConn c =>
    rw [hjob] at h
    obtain ⟨conn, hc, rfl⟩ := withConn_ok h
    exact .decreaseConn w hjob hc
  | delIoEvent c =>
    rw [hjob] at h
    obtain ⟨conn, hc, rfl⟩ := withConn_ok h
    exact .delIoEvent w hjob hc
  | close c =>
    rw [hjob] at h
    obtain ⟨conn, hc, rfl⟩ := withConn_ok h
    exact .close w hjob hc
  | pushNext rest =>
    -- likewise the loop over the map of `make_publish_map`
    rw [hjob] at h
    dsimp only at h
    split at h
    · rename_i hrest
      subst hrest
      cases h
      exact .pushed w hjob
    · cases h
      exact .skip _
  | pushHosts fd mod rest =>
    rw [hjob] at h
    cases h
    exact .pushHosts w hjob
  | idle | respond _ _ _ _ | makePublishMap | push _ _ _ _ _ =>
    -- no job, or one whose next step is another event
    rw [hjob] at h
    cases h
    exact .skip _

/-- `swap` publishes the new table: the readers get it from here on. -/
theorem check_swap {ok : Bool} {now : ℤ} {db : Db} (hs : s.sending = none)
    (hpc : s.checker.pc = .swap ∨ s.checker.pc = .reloadSwap) :
    s.check p ok now db =
      { s with
        checker := (s.checker.step p.waitTime ok now db).1
        maps := s.maps ++ [(s.checker.step p.waitTime ok now db).1.route.data] } := by
  rcases hpc with hpc | hpc <;> simp only [check, hs, hpc]

theorem check_move (ok : Bool) (now : ℤ) (db : Db) :
    Move p s (.checker ok now db) (s.check p ok now db) := by
  rcases Option.eq_none_or_eq_some s.sending with hs | ⟨i, hs⟩
  · -- no `send_task` is under way: the checker takes its next statement
    cases hpc : s.checker.pc with
    | publish changes =>
      have hcheck : s.check p ok now db =
          { s with
            pushList := pushInsert changes s.bookList s.pushList
            sending := some 0
            published := s.published ++ [⟨changes, s.mapNumber⟩] } := by
        simp only [check, hs, hpc]
      rw [hcheck]
      exact .publish hs hpc
    | swap =>
      rw [check_swap hs (Or.inl hpc)]
      exact .swap hs (Or.inl hpc)
    | reloadSwap =>
      rw [check_swap hs (Or.inr hpc)]
      exact .swap hs (Or.inr hpc)
    | _ =>
      have hcheck : s.check p ok now db =
          { s with checker := (s.checker.step p.waitTime ok now db).1 } := by
        simp only [check, hs, hpc]
      rw [hcheck]
      exact .statement hs (by simp [hpc]) (by simp [hpc]) (by simp [hpc])
  · -- the next worker of `send_task` gets its message, or there is none left
    by_cases h : i < n
    · have hcheck : s.check p ok now db =
          { s.send ⟨i, h⟩ .newTask with sending := some (i + 1) } := by
        simp only [check, hs, dif_pos h]
      rw [hcheck]
      exact .sendTask h hs
    · have hcheck : s.check p ok now db =
          { s with sending := none, checker := (s.checker.step p.waitTime ok now db).1 } := by
        simp only [check, hs, dif_neg h]
      rw [hcheck]
      exact .sentAll (Nat.not_lt.1 h) hs

/-- A worker that has a job takes no event of the loop. -/
theorem step_beginner (hw : e.beginner = some w) :
    s.step p e = if (s.workers w).job = .idle then s.begin w e else .ok s := by
  cases e with
  | recv v | request v _ _ | hangUp v _ | runTask v =>
    cases hw
    unfold step
    dsimp only [Event.beginner]
    split
    · rename_i hjob
      rw [if_pos hjob]
    · rename_i hjob
      rw [if_neg hjob]
  | _ => cases hw

/-- The events that only a worker without a job takes. -/
theorem beginner_move (hw : e.beginner = some w) (h : s.step p e = .ok s') : Move p s e s' := by
  rw [step_beginner hw] at h
  split at h
  · rename_i hjob
    exact begin_move hjob hw h
  · cases h
    exact .skip _

/-- **A step that succeeds is one of the moves.** -/
theorem step_move (h : s.step p e = .ok s') : Move p s e s' := by
  cases e with
  | accept w connfd =>
    unfold step at h
    dsimp only at h
    split at h
    · rename_i hnew
      cases h
      exact .accept w connfd hnew.1 hnew.2
    · cases h
      exact .skip _
  | recv w => exact beginner_move rfl h
  | request w fd req => exact beginner_move rfl h
  | hangUp w fd => exact beginner_move rfl h
  | runTask w => exact beginner_move rfl h
  | go w => exact go_move h
  | respond w walk room =>
    unfold step respond at h
    dsimp only at h
    split at h
    · rename_i c req hosts map hjob
      split at h
      · rename_i hwalk
        obtain ⟨conn, hc, rfl⟩ := withConn_ok h
        exact .respond w hjob hc hwalk
      · cases h
        exact .skip _
    · cases h
      exact .skip _
  | unsubscribe w mod =>
    unfold step unsubscribe at h
    dsimp only at h
    split at h
    · rename_i c rest hjob
      split at h
      · rename_i hmod
        obtain ⟨conn, hc, rfl⟩ := withConn_ok h
        exact .unsubscribe w hjob hc hmod
      · cases h
        exact .skip _
    · cases h
      exact .skip _
  | makePublishMap w fds =>
    unfold step makePublishMap at h
    dsimp only at h
    split at h
    · rename_i hjob
      split at h
      · rename_i hfds
        cases h
        exact .makePublishMap w hjob hfds
      · cases h
        exact .skip _
    · cases h
      exact .skip _
  | pushNext w fd mod =>
    unfold step pushNext at h
    dsimp only at h
    split at h
    · rename_i rest hjob
      split at h
      · rename_i hmem
        cases h
        exact .pushNext w hjob hmem
      · cases h
        exact .skip _
    · cases h
      exact .skip _
  | push w walk room =>
    unfold step push at h
    dsimp only at h
    split at h
    · rename_i fd mod hosts map rest hjob
      split at h
      · rename_i hwalk
        split at h
        · rename_i hc
          cases h
          exact .pushNull w hjob hwalk hc
        · rename_i c hfd
          obtain ⟨conn, hc, rfl⟩ := withConn_ok h
          exact .push w hjob hwalk hfd hc
      · cases h
        exact .skip _
    · cases h
      exact .skip _
  | checker ok now db =>
    cases h
    exact check_move ok now db

end DnsServer

end LbRpc
