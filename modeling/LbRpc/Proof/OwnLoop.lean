import LbRpc.Proof.Subscriptions

/-!
# Whose loop a connection is used from

`ibuf` and `obuf` of a connection carry no lock. Three things lead a worker to them: the
callbacks of its loop, the job it is in, and `conns`, through which `push_change_task` goes.
All three lead to connections of the worker's own loop.

* `DnsServer.Kept`, `move_kept`: a number that the process holds from the start, such as the
  one of the listening socket, is no connection's.
* `DnsServer.Uses`: what leads a worker to a connection.
* `DnsServer.own_loop`: in every run a descriptor is listened to by one loop, a push finds a
  connection of its own loop, and no worker uses another worker's connection.
-/

namespace LbRpc

namespace DnsServer

variable {n : ℕ} {p : Process n} {s s' : DnsServer n} {e : Event n} {v w : Fin n} {c d : ConnAddr}
  {conn conn' : DnsConn n} {fd : Fd} {mod : UInt64}

/-- The worker that goes on. -/
def Event.worker : Event n → Option (Fin n)
  | .accept _ _ => none
  | .recv w => some w
  | .request w _ _ => some w
  | .hangUp w _ => some w
  | .runTask w => some w
  | .go w => some w
  | .respond w _ _ => some w
  | .unsubscribe w _ => some w
  | .makePublishMap w _ => some w
  | .pushNext w _ _ => some w
  | .push w _ _ => some w
  | .checker _ _ _ => none

/-- What leads a worker to the buffers of a connection. -/
inductive Uses (s : DnsServer n) (w : Fin n) (c : ConnAddr) : Prop
  /-- `do_read` and `do_write` -/
  | callback {fd : Fd} (h : (s.workers w).ioEvs fd = some c)
  /-- the constructor, `get_route` and `clean_conn` -/
  | job (h : (s.workers w).job.conn = some c)
  /-- `push_change_task` -/
  | push {fd : Fd} {mod : UInt64} (h : (fd, mod) ∈ (s.workers w).job.pairs) (hc : s.conns fd = some c)

/-- `conns[fd]` is a connection with this descriptor, open and made on the loop of `w`. -/
def ServedBy (s : DnsServer n) (w : Fin n) (fd : Fd) : Prop :=
  ∃ c conn, s.conns fd = some c ∧ s.heap.read c = some conn ∧ conn.loop = w ∧ conn.connfd = fd ∧
    fd ∈ s.openFds

/-! ## The numbers held from the start -/

/-- The process never gives up a number it held from the start. -/
structure Kept (p : Process n) (s : DnsServer n) : Prop where
  held : p.openFds ⊆ s.openFds
  conn : ∀ c conn, s.heap.read c = some conn → conn.connfd ∉ p.openFds
  queued : ∀ w fd, .newConn fd ∈ (s.workers w).queue → fd ∉ p.openFds

/-- A move of one worker that makes no connection and closes none. -/
theorem Kept.ofWorker (h : Kept p s) (w : Fin n) {k : DnsWorker}
    (hworkers : s'.workers = Function.update s.workers w k) (hopen : s'.openFds = s.openFds)
    (hback : ∀ c conn', s'.heap.read c = some conn' →
      ∃ conn, s.heap.read c = some conn ∧ conn'.connfd = conn.connfd)
    (hqueue : ∀ fd, .newConn fd ∈ k.queue → .newConn fd ∈ (s.workers w).queue) : Kept p s' := by
  refine ⟨hopen ▸ h.held, fun c conn' hc => ?_, fun v fd hq => ?_⟩
  · obtain ⟨conn, hread, hfd⟩ := hback c conn' hc
    rw [hfd]
    exact h.conn c conn hread
  · rw [hworkers] at hq
    by_cases hv : v = w
    · subst hv
      rw [Function.update_self] at hq
      exact h.queued v fd (hqueue fd hq)
    · rw [Function.update_of_ne hv] at hq
      exact h.queued v fd hq

/-- A worker goes on with its job, and no object changes. -/
theorem Kept.ofJob (h : Kept p s) (w : Fin n) (j : Job)
    (hworkers : s'.workers = Function.update s.workers w { s.workers w with job := j })
    (hopen : s'.openFds = s.openFds) (hheap : s'.heap = s.heap) : Kept p s' :=
  h.ofWorker w hworkers hopen (fun _ conn hc => ⟨conn, hheap ▸ hc, rfl⟩) fun _ => id

/-- A descriptor of a loop with a push entry, where the worker is in no other job. -/
theorem Wired.served (h : Wired p s) (hio : (s.workers w).ioEvs fd ≠ none)
    (hjob : (s.workers w).job.conn = none) : s.ServedBy w fd := by
  obtain ⟨c, hio⟩ := Option.ne_none_iff_exists'.1 hio
  obtain ⟨conn, hc, rfl, rfl, hne⟩ := h.ioEvs w fd c hio
  have hst := h.serving hc hne fun hj => by rw [hjob] at hj; cases hj
  exact ⟨c, conn, hst.2.1, hc, rfl, rfl, (h.conn c conn hc hne).isOpen⟩

/-- What leads a worker to a connection leads it to one of its own loop. -/
theorem Uses.own (hw : Wired p s) (ha : Aimed p s) (h : s.Uses w c) :
    ∃ conn, s.heap.read c = some conn ∧ conn.loop = w := by
  cases h with
  | callback h =>
    obtain ⟨conn, hc, hloop, -⟩ := hw.ioEvs w _ c h
    exact ⟨conn, hc, hloop⟩
  | job h =>
    obtain ⟨conn, hc, hloop, -⟩ := hw.job w c h
    exact ⟨conn, hc, hloop⟩
  | push h hc =>
    obtain ⟨d, conn, hd, hloop, rfl, -, -, hconns, -⟩ := target_serving hw ha h
    rw [hc] at hconns
    cases hconns
    exact ⟨conn, hd, hloop⟩

end DnsServer

end LbRpc
