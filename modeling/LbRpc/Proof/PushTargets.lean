import LbRpc.Proof.Packing
import LbRpc.Proof.Subscriptions

/-!
# Who a push is sent to

`_push_list` is filled by descriptor number, and an entry can outlive the connection it was
made for. The next connection with that number then gets what it never asked for.

* `DnsServer.Fresh`: a descriptor that is accepted has no entry left, and a request has
  `0 ≤ cmdid`, for which `push_change_task` unpacks the key rightly.
* `DnsServer.pushes_subscribed`: in every run of such steps a push sends a connection only
  pairs of its own list.
* `DnsServer.pushes_subscribed_fails`: a run in which the number is reused too early.
-/

namespace LbRpc

namespace DnsServer

variable {n : ℕ} {p : Process n} {s s' : DnsServer n} {e : Event n} {v w : Fin n} {c d : ConnAddr}
  {conn conn' : DnsConn n} {fd : Fd} {mod : UInt64}

/-- An accepted descriptor has no entry in `_push_list`, and a request has `0 ≤ cmdid`. -/
def Fresh (s : DnsServer n) : Event n → Prop
  | .accept _ connfd => connfd ∉ s.openFds → s.pushList connfd = none
  | .request _ _ req => 0 ≤ req.cmdid
  | _ => True

instance (s : DnsServer n) : (e : Event n) → Decidable (s.Fresh e)
  | .accept _ connfd => inferInstanceAs (Decidable (connfd ∉ s.openFds → s.pushList connfd = none))
  | .request _ _ req => inferInstanceAs (Decidable (0 ≤ req.cmdid))
  | .recv _ => isTrue trivial
  | .hangUp _ _ => isTrue trivial
  | .runTask _ => isTrue trivial
  | .go _ => isTrue trivial
  | .respond _ _ _ => isTrue trivial
  | .unsubscribe _ _ => isTrue trivial
  | .makePublishMap _ _ => isTrue trivial
  | .pushNext _ _ _ => isTrue trivial
  | .push _ _ _ => isTrue trivial
  | .checker _ _ _ => isTrue trivial

/-- A push sends this connection a pair of its own list. -/
def Subscribed (s : DnsServer n) (c : ConnAddr) (rsp : Lbrss.GetRouteResponse) : Prop :=
  ∃ conn l, s.heap.read c = some conn ∧ conn.param = some l ∧ key rsp.modid rsp.cmdid ∈ l

/-- What the push list and the pushes hold is in the list of the connection. -/
structure Owned (s : DnsServer n) : Prop where
  keys : ∀ c conn l, s.heap.read c = some conn → conn.param = some l → ∀ mod ∈ l,
    key (pushPair mod).1 (pushPair mod).2 = mod
  pushList : ∀ c conn l, s.heap.read c = some conn → conn.connfd ≠ -1 → conn.param = some l →
    ∀ mod ∈ (s.pushList conn.connfd).getD ∅, mod ∈ l
  queued : ∀ w fd, .newConn fd ∈ (s.workers w).queue → s.pushList fd = none
  pairs : ∀ w fd mod, (fd, mod) ∈ (s.workers w).job.pairs → ∀ c conn, s.heap.read c = some conn →
    conn.connfd = fd → ∃ l, conn.param = some l ∧ mod ∈ l

/-- A key under which a pair with `0 ≤ cmdid` is subscribed is unpacked rightly. -/
theorem key_pushPair {req : Lbrss.GetRouteRequest} (h : 0 ≤ req.cmdid) :
    key (pushPair (subscribeKey req)).1 (pushPair (subscribeKey req)).2 = subscribeKey req := by
  rw [pushPair_subscribeKey, if_pos h]
  rfl

/-- What is booked is in the list. -/
theorem Wired.mem_list (h : Wired p s) (hc : s.heap.read c = some conn) (hne : conn.connfd ≠ -1)
    (hb : s.Booked conn.connfd mod) : ∃ l, conn.param = some l ∧ mod ∈ l := by
  have hst := (h.conn c conn hc hne).stage
  revert hst
  cases (s.workers conn.loop).job.stage c with
  | made => exact fun hst => absurd hb (hst.2.2 mod)
  | registered => exact fun hst => absurd hb (hst.2.2 mod)
  | serving =>
    rintro ⟨-, -, l, hl, hbook⟩
    exact ⟨l, hl, (hbook mod).1 hb⟩
  | subscribing m =>
    rintro ⟨-, -, l, hl, -, hbook⟩
    exact ⟨l, hl, ((hbook mod).1 hb).1⟩
  | leaving rest =>
    rintro ⟨-, -, l, hl, hsub, hbook⟩
    exact ⟨l, hl, hsub ((hbook mod).1 hb)⟩
  | unlisted => exact fun hst => absurd hb (hst.2.2 mod)
  | removed => exact fun hst => absurd hb (hst.2.2 mod)
  | deaf => exact fun hst => absurd hb (hst.2.2 mod)

/-- A queued descriptor is booked nowhere. -/
theorem Wired.queued_not_booked (h : Wired p s) (hq : .newConn fd ∈ (s.workers w).queue) :
    ¬s.Booked fd mod := by
  intro hb
  obtain ⟨c, conn, hc, hfd, -⟩ := h.booked fd mod hb
  exact (h.queued w fd hq).2.2 c conn hc hfd

/-- Moves that leave the lists of the connections and the push list alone. -/
theorem Owned.frame (h : Owned s) (hw : Wired p s) (ha : Aimed p s)
    (hback : ∀ c conn', s'.heap.read c = some conn' → ∃ conn, s.heap.read c = some conn ∧
      (conn'.connfd = conn.connfd ∨ conn'.connfd = -1) ∧ conn'.param = conn.param)
    (hpush : s'.pushList = s.pushList)
    (hqueue : ∀ w fd, .newConn fd ∈ (s'.workers w).queue → .newConn fd ∈ (s.workers w).queue)
    (hpairs : ∀ w, (s'.workers w).job.pairs ⊆ (s.workers w).job.pairs) : Owned s' := by
  refine ⟨?_, ?_, ?_, ?_⟩
  · intro c conn' l hc hl
    obtain ⟨conn, hread, -, hparam⟩ := hback c conn' hc
    exact h.keys c conn l hread (hparam ▸ hl)
  · intro c conn' l hc hne hl
    obtain ⟨conn, hread, hfd, hparam⟩ := hback c conn' hc
    have hfd' : conn'.connfd = conn.connfd := hfd.resolve_right hne
    rw [hpush, hfd']
    exact h.pushList c conn l hread (hfd' ▸ hne) (hparam ▸ hl)
  · intro w fd hq
    rw [hpush]
    exact h.queued w fd (hqueue w fd hq)
  · intro w fd mod hmem c conn' hc hfd
    obtain ⟨conn, hread, hfd', hparam⟩ := hback c conn' hc
    obtain ⟨-, -, -, -, -, hne, -⟩ := target_serving hw ha (hpairs w hmem)
    have hsame : conn'.connfd = conn.connfd := hfd'.resolve_right (hfd ▸ hne)
    rw [hparam]
    exact h.pairs w fd mod (hpairs w hmem) c conn hread (hsame ▸ hfd)

/-- A move of one worker that leaves the lists alone. -/
theorem Owned.ofWorker (h : Owned s) (hw : Wired p s) (ha : Aimed p s) (w : Fin n) {k : DnsWorker}
    (hworkers : s'.workers = Function.update s.workers w k)
    (hback : ∀ c conn', s'.heap.read c = some conn' → ∃ conn, s.heap.read c = some conn ∧
      (conn'.connfd = conn.connfd ∨ conn'.connfd = -1) ∧ conn'.param = conn.param)
    (hpush : s'.pushList = s.pushList)
    (hqueue : ∀ fd, .newConn fd ∈ k.queue → .newConn fd ∈ (s.workers w).queue)
    (hpairs : k.job.pairs ⊆ (s.workers w).job.pairs) : Owned s' := by
  refine h.frame hw ha hback hpush (fun v fd hq => ?_) fun v => ?_
  · rw [hworkers] at hq
    by_cases hv : v = w
    · subst hv
      rw [Function.update_self] at hq
      exact hqueue fd hq
    · rwa [Function.update_of_ne hv] at hq
  · rw [hworkers]
    by_cases hv : v = w
    · subst hv
      rw [Function.update_self]
      exact hpairs
    · rw [Function.update_of_ne hv]

theorem same_back (hheap : s'.heap = s.heap) : ∀ c conn', s'.heap.read c = some conn' →
    ∃ conn, s.heap.read c = some conn ∧
      (conn'.connfd = conn.connfd ∨ conn'.connfd = -1) ∧ conn'.param = conn.param :=
  fun _ conn hc => ⟨conn, hheap ▸ hc, Or.inl rfl, rfl⟩

/-- A change of one connection that keeps its list. -/
theorem modify_back {g : DnsConn n → DnsConn n} (hheap : s'.heap = s.heap.modify c g)
    (hg : ∀ b, ((g b).connfd = b.connfd ∨ (g b).connfd = -1) ∧ (g b).param = b.param) :
    ∀ d conn', s'.heap.read d = some conn' → ∃ conn, s.heap.read d = some conn ∧
      (conn'.connfd = conn.connfd ∨ conn'.connfd = -1) ∧ conn'.param = conn.param := by
  intro d conn' hd
  rw [hheap] at hd
  rcases Heap.read_modify_cases hd with ⟨rfl, b, hb, rfl⟩ | ⟨-, hd'⟩
  · exact ⟨b, hb, hg b⟩
  · exact ⟨conn', hd', Or.inl rfl, rfl⟩

/-- A job that pushes nothing takes pairs away, if anything. -/
theorem pairs_of_setJob {j : Job} (hj : j.pairs = ∅) {v : Fin n} {x : Fd × UInt64}
    (hx : x ∈ ((s.setJob w j).workers v).job.pairs) : x ∈ (s.workers v).job.pairs := by
  by_cases hv : v = w
  · subst hv
    rw [setJob, modifyWorker_self] at hx
    exact absurd (hj ▸ hx) (Finset.notMem_empty x)
  · rw [setJob, modifyWorker_ne hv] at hx
    exact hx

/-- A worker goes on with its job, or with one that pushes nothing. -/
theorem Owned.ofJob (h : Owned s) (hw : Wired p s) (ha : Aimed p s) (w : Fin n) (j : Job)
    (hworkers : s'.workers = Function.update s.workers w { s.workers w with job := j })
    (hheap : s'.heap = s.heap) (hpush : s'.pushList = s.pushList)
    (hpairs : j.pairs ⊆ (s.workers w).job.pairs) : Owned s' :=
  h.ofWorker hw ha w hworkers (same_back hheap) hpush (fun _ => id) hpairs

/-- A worker that is in the middle of another job pushes nothing on its connection. -/
theorem not_pairs_of_job (hw : Wired p s) (ha : Aimed p s) (hj : (s.workers w).job.conn = some c)
    (hc : s.heap.read c = some conn) (hfd : conn.connfd = fd) : (fd, mod) ∉ (s.workers v).job.pairs := by
  intro hmem
  obtain ⟨hloop, hne, -⟩ := hw.ofJob hc hj
  obtain ⟨d, conn', hd, hloop', hfd', -, -⟩ := target_serving hw ha hmem
  have hdc := hw.fds c d conn conn' hc hd hne (hfd'.trans hfd.symm)
  subst hdc
  rw [hc] at hd
  cases hd
  -- one worker would have both jobs
  rw [← hloop'.symm.trans hloop, Job.conn_of_pairs hmem] at hj
  cases hj

/-- A new number, with nothing left in the push list. -/
theorem Owned.accept (h : Owned s) (hfree : s.pushList fd = none) :
    Owned { s.send w (.newConn fd) with openFds := insert fd s.openFds } := by
  refine { keys := h.keys, pushList := h.pushList, queued := ?queued, pairs := ?pairs }
  case queued =>
    intro v fd' hq
    by_cases hv : v = w
    · subst hv
      have hq' : .newConn fd' ∈ ((s.send v (.newConn fd)).workers v).queue := hq
      rw [send, modifyWorker_self] at hq'
      simp only [List.mem_append, List.mem_singleton, TaskMsg.newConn.injEq] at hq'
      rcases hq' with hq' | rfl
      · exact h.queued v fd' hq'
      · exact hfree
    · have hq' : .newConn fd' ∈ ((s.send w (.newConn fd)).workers v).queue := hq
      rw [send, modifyWorker_ne hv] at hq'
      exact h.queued v fd' hq'
  case pairs =>
    intro v fd' mod hmem
    refine h.pairs v fd' mod ?_
    by_cases hv : v = w
    · subst hv
      have hmem' : (fd', mod) ∈ ((s.send v (.newConn fd)).workers v).job.pairs := hmem
      rwa [send, modifyWorker_self] at hmem'
    · have hmem' : (fd', mod) ∈ ((s.send w (.newConn fd)).workers v).job.pairs := hmem
      rwa [send, modifyWorker_ne hv] at hmem'

/-- A new connection has an empty list, and nothing is to be pushed on it. -/
theorem Owned.newConn (h : Owned s) (hw : Wired p s) (ha : Aimed p s) {queue : List TaskMsg}
    (hq : (s.workers w).queue = .newConn fd :: queue) :
    Owned ({ s with heap := s.heap.alloc ⟨fd, w, some ∅, []⟩ }.modifyWorker w fun k =>
      { k with queue := queue, job := .addIoEvent s.heap.next }) := by
  have hmem : .newConn fd ∈ (s.workers w).queue := by
    rw [hq]
    exact List.mem_cons_self
  refine { keys := ?keys, pushList := ?pushList, queued := ?queued, pairs := ?pairs }
  case keys =>
    intro c b l hc hl mod hmod
    rcases Heap.read_alloc_cases hc with ⟨rfl, rfl⟩ | hc'
    · cases hl
      exact absurd hmod (Finset.notMem_empty mod)
    · exact h.keys c b l hc' hl mod hmod
  case pushList =>
    intro c b l hc hne hl mod hmod
    rcases Heap.read_alloc_cases hc with ⟨rfl, rfl⟩ | hc'
    · have hmod' : mod ∈ (s.pushList fd).getD ∅ := hmod
      rw [h.queued w fd hmem] at hmod'
      exact absurd hmod' (Finset.notMem_empty mod)
    · exact h.pushList c b l hc' hne hl mod hmod
  case queued =>
    intro v fd' hq'
    refine h.queued v fd' ?_
    by_cases hv : v = w
    · subst hv
      rw [modifyWorker_self] at hq'
      rw [hq]
      exact List.mem_cons_of_mem _ hq'
    · rwa [modifyWorker_ne hv] at hq'
  case pairs =>
    intro v fd' mod hp c b hc hfd
    have hp' : (fd', mod) ∈ (s.workers v).job.pairs := by
      by_cases hv : v = w
      · subst hv
        rw [modifyWorker_self] at hp
        exact absurd hp (Finset.notMem_empty _)
      · rwa [modifyWorker_ne hv] at hp
    rcases Heap.read_alloc_cases hc with ⟨rfl, rfl⟩ | hc'
    · -- no other connection has the number
      obtain ⟨d, conn', hd, -, hfd', -⟩ := target_serving hw ha hp'
      exact absurd (hfd'.trans hfd.symm) ((hw.queued w fd hmem).2.2 d conn' hd)
    · exact h.pairs v fd' mod hp' c b hc' hfd

/-- A list grows by a key that the loops of `publish` and `push_change_task` can unpack. -/
theorem Owned.unknown (h : Owned s) {req : Lbrss.GetRouteRequest} {subList : Finset UInt64}
    (hc : s.heap.read c = some conn) (hl : conn.param = some subList)
    (hkey : key (pushPair (subscribeKey req)).1 (pushPair (subscribeKey req)).2 = subscribeKey req) :
    Owned ((s.modifyConn c fun b => { b with param := some (insert (subscribeKey req) subList) }).setJob w
      (.subscribe c req)) := by
  refine { keys := ?keys, pushList := ?pushList, queued := ?queued, pairs := ?pairs }
  case keys =>
    intro d b l hd hb mod hmod
    rcases Heap.read_modify_known hc hd with ⟨rfl, rfl⟩ | hd'
    · cases hb
      rcases Finset.mem_insert.1 hmod with rfl | hmod
      · exact hkey
      · exact h.keys d conn _ hc hl mod hmod
    · exact h.keys d b l hd' hb mod hmod
  case pushList =>
    intro d b l hd hne hb mod hmod
    rcases Heap.read_modify_known hc hd with ⟨rfl, rfl⟩ | hd'
    · cases hb
      exact Finset.mem_insert_of_mem (h.pushList d conn _ hc hne hl mod hmod)
    · exact h.pushList d b l hd' hne hb mod hmod
  case queued =>
    intro v fd hq
    rw [setJob_queue] at hq
    exact h.queued v fd hq
  case pairs =>
    intro v fd mod hp d b hd hfd
    have hp' : (fd, mod) ∈ (s.workers v).job.pairs := pairs_of_setJob rfl hp
    rcases Heap.read_modify_known hc hd with ⟨rfl, rfl⟩ | hd'
    · obtain ⟨l, hl', hmem⟩ := h.pairs v fd mod hp' d conn hc hfd
      rw [hl] at hl'
      cases hl'
      exact ⟨_, rfl, Finset.mem_insert_of_mem hmem⟩
    · exact h.pairs v fd mod hp' d b hd' hfd

/-- A list goes when nothing is to be pushed for it. -/
theorem Owned.cleared (h : Owned s) (hw : Wired p s) (ha : Aimed p s)
    (hjob : (s.workers w).job = .unsubscribe c ∅) :
    Owned ((s.modifyConn c fun b => { b with param := none }).setJob w (.decreaseConn c)) := by
  have hj : (s.workers w).job.conn = some c := by rw [hjob]; rfl
  obtain ⟨conn, hc, -⟩ := hw.job w c hj
  refine { keys := ?keys, pushList := ?pushList, queued := ?queued, pairs := ?pairs }
  case keys =>
    intro d b l hd hb mod hmod
    rcases Heap.read_modify_known hc hd with ⟨rfl, rfl⟩ | hd'
    · cases hb
    · exact h.keys d b l hd' hb mod hmod
  case pushList =>
    intro d b l hd hne hb mod hmod
    rcases Heap.read_modify_known hc hd with ⟨rfl, rfl⟩ | hd'
    · cases hb
    · exact h.pushList d b l hd' hne hb mod hmod
  case queued =>
    intro v fd hq
    rw [setJob_queue] at hq
    exact h.queued v fd hq
  case pairs =>
    intro v fd mod hp d b hd hfd
    have hp' : (fd, mod) ∈ (s.workers v).job.pairs := pairs_of_setJob rfl hp
    rcases Heap.read_modify_known hc hd with ⟨rfl, rfl⟩ | hd'
    · exact absurd hp' (not_pairs_of_job hw ha hj hc hfd)
    · exact h.pairs v fd mod hp' d b hd' hfd

/-- A task takes entries that are in the lists of their connections. -/
theorem Owned.makePublishMap (h : Owned s) (hw : Wired p s) (ha : Aimed p s) {fds : Finset Fd}
    (hjob : (s.workers w).job = .makePublishMap)
    (hfds : ∀ fd ∈ fds, s.pushList fd ≠ none ∧ s.Online p w fd) :
    Owned ({ s with pushList := fun fd => if fd ∈ fds then none else s.pushList fd }.setJob w
      (.pushNext (needPublish fds s.pushList))) := by
  have hless : ∀ fd, (if fd ∈ fds then none else s.pushList fd).getD ∅ ⊆ (s.pushList fd).getD ∅ := by
    intro fd
    split
    · exact Finset.empty_subset _
    · exact Finset.Subset.refl _
  refine { keys := h.keys, pushList := ?pushList, queued := ?queued, pairs := ?pairs }
  case pushList =>
    intro c conn l hc hne hl mod hmod
    exact h.pushList c conn l hc hne hl mod (hless _ hmod)
  case queued =>
    intro v fd hq
    rw [setJob_queue] at hq
    show (if fd ∈ fds then none else s.pushList fd) = none
    rw [h.queued v fd hq, ite_self]
  case pairs =>
    intro v fd mod hp c conn hc hfd
    by_cases hv : v = w
    · subst hv
      rw [setJob, modifyWorker_self] at hp
      obtain ⟨hmem, hmod⟩ := mem_needPublish.1 hp
      obtain ⟨hpush, honline⟩ := hfds fd hmem
      rcases honline with hev | hio
      · exact absurd hev (ha.pushFds fd hpush v)
      · -- the callback leads to the one connection with this number
        obtain ⟨d, hd⟩ := Option.ne_none_iff_exists'.1 hio
        obtain ⟨conn', hread, hloop, hfd', hne⟩ := hw.ioEvs v fd d hd
        have hdc := hw.fds c d conn conn' hc hread (hfd ▸ hne) (hfd'.trans hfd.symm)
        subst hdc
        have hsame : some conn = some conn' := hc.symm.trans hread
        cases hsame
        have hidle : (s.workers conn.loop).job.conn ≠ some d := by
          rw [hloop, hjob]
          exact fun heq => by cases heq
        obtain ⟨-, -, l, hl, -⟩ := hw.serving hread (hfd ▸ hne) hidle
        exact ⟨l, hl, h.pushList d conn l hread (hfd ▸ hne) hl mod (hfd ▸ hmod)⟩
    · rw [setJob, modifyWorker_ne hv] at hp
      exact h.pairs v fd mod hp c conn hc hfd

/-- `publish` adds what is booked, and only lists are booked. -/
theorem Owned.publish (h : Owned s) (hw : Wired p s) {changes : Finset UInt64} (sending : Option ℕ)
    (published : List Announcement) :
    Owned { s with
      pushList := pushInsert changes s.bookList s.pushList, sending := sending, published := published } := by
  refine { keys := h.keys, pushList := ?pushList, queued := ?queued, pairs := h.pairs }
  case pushList =>
    intro c conn l hc hne hl mod hmod
    rcases mem_pushInsert.1 hmod with hmod | ⟨-, hb⟩
    · exact h.pushList c conn l hc hne hl mod hmod
    · obtain ⟨l', hl', hmem⟩ := hw.mem_list hc hne hb
      rw [hl] at hl'
      cases hl'
      exact hmem
  case queued =>
    intro v fd hq
    exact (pushInsert_none fun mod fds hb hmem => hw.queued_not_booked hq ⟨fds, hb, hmem⟩).trans
      (h.queued v fd hq)

/-- **Every move keeps the pairs with their connections.** -/
theorem move_owned (hw : Wired p s) (ha : Aimed p s) (h : Owned s) (he : s.Fresh e) (hm : Move p s e s') :
    Owned s' := by
  -- most jobs push nothing
  have hnone : ∀ {j : Job} {t : Finset (Fd × UInt64)}, j.pairs = ∅ → j.pairs ⊆ t :=
    fun hj => hj ▸ Finset.empty_subset _
  cases hm with
  | skip => exact h
  | accept w connfd h0 hnew => exact h.accept (he hnew)
  | newTask w hjob hq =>
    refine h.ofWorker hw ha w rfl (same_back rfl) rfl (fun fd hmem => ?_) (Finset.Subset.refl _)
    rw [hq]
    exact List.mem_cons_of_mem _ hmem
  | newConn w hjob hq => exact h.newConn hw ha hq
  | known w hjob hio hc hl hk => exact h.ofJob hw ha w _ rfl rfl rfl (hnone rfl)
  | unknown w hjob hio hc hl hk => exact h.unknown hc hl (key_pushPair he)
  | hangUp w hjob hio hc hl => exact h.ofJob hw ha w _ rfl rfl rfl (hnone rfl)
  | runTask w hjob hk => exact h.ofWorker hw ha w rfl (same_back rfl) rfl (fun _ => id) (hnone rfl)
  | addIoEvent w hjob hc => exact h.ofWorker hw ha w rfl (same_back rfl) rfl (fun _ => id) (hnone rfl)
  | increaseConn w hjob hc => exact h.ofJob hw ha w _ rfl rfl rfl (hnone rfl)
  | subscribe w hjob hc => exact h.ofJob hw ha w _ rfl rfl rfl (hnone rfl)
  | getHosts w hjob => exact h.ofJob hw ha w _ rfl rfl rfl (hnone rfl)
  | @respond w c conn req hosts map walk room hjob hc hwalk =>
    refine h.ofWorker hw ha w rfl (modify_back rfl fun b => ?_) rfl (fun _ => id) (hnone rfl)
    cases room <;> exact ⟨Or.inl rfl, rfl⟩
  | unsubscribe w hjob hc hmod => exact h.ofJob hw ha w _ rfl rfl rfl (hnone rfl)
  | cleared w hjob => exact h.cleared hw ha hjob
  | decreaseConn w hjob hc => exact h.ofJob hw ha w _ rfl rfl rfl (hnone rfl)
  | delIoEvent w hjob hc => exact h.ofWorker hw ha w rfl (same_back rfl) rfl (fun _ => id) (hnone rfl)
  | close w hjob hc =>
    exact h.ofWorker hw ha w rfl (modify_back rfl fun _ => ⟨Or.inr rfl, rfl⟩) rfl (fun _ => id) (hnone rfl)
  | makePublishMap w hjob hfds => exact h.makePublishMap hw ha hjob hfds
  | pushNext w hjob hmem =>
    refine h.ofJob hw ha w _ rfl rfl rfl ?_
    rw [hjob]
    exact Finset.insert_subset hmem (Finset.erase_subset _ _)
  | pushHosts w hjob =>
    refine h.ofJob hw ha w _ rfl rfl rfl ?_
    rw [hjob]
    exact Finset.Subset.refl _
  | pushNull w hjob hwalk hc =>
    refine h.ofJob hw ha w _ rfl rfl rfl ?_
    rw [hjob]
    exact Finset.subset_insert _ _
  | @push w fd mod hosts map rest walk room c conn hjob hwalk hfd hc =>
    refine h.ofWorker hw ha w rfl (modify_back rfl fun b => ?_) rfl (fun _ => id) ?_
    · cases room <;> exact ⟨Or.inl rfl, rfl⟩
    · rw [hjob]
      exact Finset.subset_insert _ _
  | pushed w hjob => exact h.ofWorker hw ha w rfl (same_back rfl) rfl (fun _ => id) (hnone rfl)
  | sendTask hi hs =>
    refine h.ofWorker hw ha ⟨_, hi⟩ rfl (same_back rfl) rfl (fun fd hmem => ?_) (Finset.Subset.refl _)
    simpa using hmem
  | sentAll hi hs => exact ⟨h.keys, h.pushList, h.queued, h.pairs⟩
  | publish hs hpc => exact h.publish hw _ _
  | swap hs hpc => exact ⟨h.keys, h.pushList, h.queued, h.pairs⟩
  | statement hs hpc hswap hreload => exact ⟨h.keys, h.pushList, h.queued, h.pairs⟩

theorem boot_owned (p : Process n) : Owned p.boot := by
  refine ⟨fun c conn l hc => ?_, fun c conn l hc => ?_, fun w fd hq => rfl, fun w fd mod hp => ?_⟩
  · cases hc
  · cases hc
  · exact absurd hp (Finset.notMem_empty _)

/-- What a push sends is in the list of its connection. -/
theorem Owned.subscribed (h : Owned s) (hw : Wired p s) (ha : Aimed p s) {rsp : Lbrss.GetRouteResponse}
    (he : s.pushes e = some (c, rsp)) : s.Subscribed c rsp := by
  unfold pushes at he
  split at he
  · rename_i w walk
    split at he
    · rename_i fd mod hosts map rest hjob
      split at he
      · obtain ⟨d, hd, heq⟩ := Option.map_eq_some_iff.1 he
        cases heq
        have hmem : (fd, mod) ∈ (s.workers w).job.pairs := by
          rw [hjob]
          exact Finset.mem_insert_self ..
        obtain ⟨c', conn, hc, -, rfl, -, -, hconns, -⟩ := target_serving hw ha hmem
        rw [hconns] at hd
        cases hd
        obtain ⟨l, hl, hmod⟩ := h.pairs w _ mod hmem _ conn hc rfl
        refine ⟨conn, l, hc, hl, ?_⟩
        show key (pushPair mod).1 (pushPair mod).2 ∈ l
        rw [h.keys _ conn l hc hl mod hmod]
        exact hmod
      · cases he
    · cases he
  · cases he

/-- **In every run whose steps are fresh, a push sends a connection only pairs that are in
its own list.** -/
theorem pushes_subscribed (p : Process n) (es : List (Event n))
    (hes : Runs.Along (step p) (fun _ s e => s.Fresh e) p.boot es) :
    Runs.Along (step p) (fun _ s e => ∀ c rsp, s.pushes e = some (c, rsp) → s.Subscribed c rsp)
      p.boot es := by
  have hall : Runs.Throughout (step p) (fun _ s => Wired p s ∧ Aimed p s ∧ Owned s) p.boot es := by
    refine Runs.throughout_of_along ⟨boot_wired p, boot_aimed p, boot_owned p⟩ ?_ hes
    rintro pre e s s' ⟨hw, ha, ho⟩ he hs
    have hm := step_move hs
    exact ⟨move_wired hw hm, move_aimed hw ha hm, move_owned hw ha ho he hm⟩
  intro pre e hpre s hs c rsp hpush
  obtain ⟨hw, ha, ho⟩ := hall pre ((List.prefix_append pre [e]).trans hpre) s hs
  exact ho.subscribed hw ha hpush

/-- One worker and no routes. -/
def oneWorker : Process 1 where
  openFds := {0, 1, 2, 3, 4, 5}
  evfd := fun _ => 5
  evfd_open := by decide
  evfd_inj := fun v w _ => Subsingleton.elim v w
  nonneg := by decide
  conns := fun _ => none
  route := ⟨Function.update (fun _ => ∅) .a (.ofRows []), .a, .b, 0⟩
  route_new := ⟨some (some 0), some [], rfl⟩
  waitTime := 10
  now := 0

/-- The tables at time 1, when the hosts of (1, 1) have changed. -/
def changed : Db := ⟨⟨[], 0, by simp⟩, some 1, ⟨[⟨0, 1, 1, 1⟩], 1, by simp⟩⟩

/-- A client gets descriptor 7 and subscribes to (1, 1), and `publish` announces a change of it
to the worker. -/
def subscribeAndPublish : List (Event 1) :=
  [.accept 0 7, .recv 0, .go 0, .go 0, .request 0 7 ⟨1, 1⟩, .go 0, .go 0, .respond 0 [] true] ++
    (List.replicate 5 (.checker true 1 changed) ++ [.checker true 1 changed, .checker true 1 changed])

/-- The worker runs `push_change_task`, which has an entry for descriptor 7. -/
def pushTask : List (Event 1) :=
  [.recv 0, .runTask 0, .makePublishMap 0 {7}, .pushNext 0 7 (key 1 1), .go 0]

/-- The client closes, and the next one gets its number before the worker runs the task. -/
def reuse : List (Event 1) :=
  [.hangUp 0 7, .unsubscribe 0 (key 1 1), .go 0, .go 0, .go 0, .go 0, .accept 0 7, .recv 0, .recv 0,
    .go 0, .go 0]

theorem pushes_subscribed_ok :
    Runs.Along (step oneWorker) (fun _ s e => ∀ c rsp, s.pushes e = some (c, rsp) → s.Subscribed c rsp)
      oneWorker.boot (subscribeAndPublish ++ pushTask ++ [.push 0 [] true]) := by
  refine pushes_subscribed oneWorker _ (Runs.along_of_check (c := fun s e => decide (s.Fresh e)) ?_ ?_)
  · decide +kernel
  · exact fun _ _ _ h => of_decide_eq_true h

/-- The test for a push of a pair that the connection has not asked for. -/
def unasked (s : DnsServer n) (e : Event n) : Bool :=
  match s.pushes e with
  | none => false
  | some (c, rsp) =>
    match s.heap.read c with
    | none => false
    | some conn =>
      match conn.param with
      | none => true
      | some l => decide (key rsp.modid rsp.cmdid ∉ l)

theorem not_subscribed_of_unasked (h : s.unasked e = true) :
    ∃ c rsp, s.pushes e = some (c, rsp) ∧ ¬s.Subscribed c rsp := by
  unfold unasked at h
  split at h
  · cases h
  rename_i c rsp hpush
  split at h
  · cases h
  rename_i conn hc
  refine ⟨c, rsp, hpush, ?_⟩
  rintro ⟨conn', l, hc', hl, hmem⟩
  rw [hc] at hc'
  cases hc'
  rw [hl] at h
  exact of_decide_eq_true h hmem

/-- The client that got descriptor 7 when it was free again is sent (1, 1). -/
theorem pushes_subscribed_fails :
    ¬∀ (n : ℕ) (p : Process n) (es : List (Event n)),
      Runs.Along (step p) (fun _ s e => ∀ c rsp, s.pushes e = some (c, rsp) → s.Subscribed c rsp)
        p.boot es := by
  intro h
  have hrun : (match Runs.run (step oneWorker) oneWorker.boot
      (subscribeAndPublish ++ reuse ++ pushTask.tail) with
      | .ok s => s.unasked (.push 0 [] true)
      | .error _ => false) = true := by decide +kernel
  split at hrun
  · rename_i s hs
    obtain ⟨c, rsp, hpush, hnot⟩ := not_subscribed_of_unasked hrun
    exact hnot (h 1 oneWorker (_ ++ [.push 0 [] true]) _ _ (List.prefix_refl _) s hs c rsp hpush)
  · cases hrun

end DnsServer

end LbRpc
