import LbRpc.Proof.DnsStep

/-!
# Who is subscribed

The subscriptions are kept twice: in the list of each connection, and by mod in
`_book_list`. A connection goes through stages; at each stage the two copies, the loop's
callbacks and `conns` stand in a fixed relation.

* `ConnStage`, `AtStage`: the stages, and what holds at each.
* `Wired`, `move_wired`: every connection is as its stage wants, in every run.
* `DnsServer.subscriptions_agree`: between handlers the two copies agree.
-/

namespace LbRpc

/-- The stages of a connection. -/
inductive ConnStage
  /-- in the constructor, behind `create_subscribe` -/
  | made
  /-- behind `add_io_event` -/
  | registered
  | serving
  /-- the list has the mod, `_book_list` has it not yet -/
  | subscribing (mod : UInt64)
  /-- in `clear_subscribe`, with this part of the list in front -/
  | leaving (rest : Finset UInt64)
  /-- behind `clear_subscribe` -/
  | unlisted
  /-- behind `decrease_conn` -/
  | removed
  /-- behind `del_io_event` -/
  | deaf

/-- The stage at which a job of its worker leaves a connection. -/
def Job.stage (c : ConnAddr) (j : Job) : ConnStage :=
  if j.conn = some c then
    match j with
    | .addIoEvent _ => .made
    | .increaseConn _ => .registered
    | .subscribe _ req => .subscribing (subscribeKey req)
    | .unsubscribe _ rest => .leaving rest
    | .decreaseConn _ => .unlisted
    | .delIoEvent _ => .removed
    | .close _ => .deaf
    | _ => .serving
  else .serving

theorem Job.stage_of_ne {c : ConnAddr} {j : Job} (h : j.conn ≠ some c) : j.stage c = .serving := if_neg h

/-- A job that leaves its connection serving leaves all of them. -/
theorem Job.stage_serving {c : ConnAddr} {j : Job} (hj : j.conn = some c) (h : j.stage c = .serving)
    (d : ConnAddr) : j.stage d = .serving := by
  by_cases hd : d = c
  · rw [hd, h]
  · refine Job.stage_of_ne fun heq => hd ?_
    rw [hj] at heq
    exact (Option.some.inj heq).symm

section Stages

variable (c : ConnAddr) (req : Lbrss.GetRouteRequest)

@[simp] theorem Job.stage_addIoEvent : (Job.addIoEvent c).stage c = .made := if_pos rfl

@[simp] theorem Job.stage_increaseConn : (Job.increaseConn c).stage c = .registered := if_pos rfl

@[simp] theorem Job.stage_subscribe :
    (Job.subscribe c req).stage c = .subscribing (subscribeKey req) := if_pos rfl

@[simp] theorem Job.stage_getHosts : (Job.getHosts c req).stage c = .serving := if_pos rfl

@[simp] theorem Job.stage_respond (hosts : Finset UInt64) (map : ℕ) :
    (Job.respond c req hosts map).stage c = .serving := if_pos rfl

@[simp] theorem Job.stage_unsubscribe (rest : Finset UInt64) :
    (Job.unsubscribe c rest).stage c = .leaving rest := if_pos rfl

@[simp] theorem Job.stage_decreaseConn : (Job.decreaseConn c).stage c = .unlisted := if_pos rfl

@[simp] theorem Job.stage_delIoEvent : (Job.delIoEvent c).stage c = .removed := if_pos rfl

@[simp] theorem Job.stage_close : (Job.close c).stage c = .deaf := if_pos rfl

end Stages

theorem ne_of_nonneg {fd : ℤ} (h : 0 ≤ fd) : fd ≠ -1 := by omega

namespace DnsServer

variable {n : ℕ} {p : Process n} {s s' : DnsServer n} {e : Event n} {v w : Fin n} {c d : ConnAddr}
  {conn conn' : DnsConn n} {fd : Fd} {mod : UInt64}

/-- `_book_list` has the descriptor under the mod. -/
def Booked (s : DnsServer n) (fd : Fd) (mod : UInt64) : Prop := ∃ fds, s.bookList mod = some fds ∧ fd ∈ fds

/-- What holds of a connection at a stage. -/
def AtStage (s : DnsServer n) (c : ConnAddr) (conn : DnsConn n) : ConnStage → Prop
  | .made =>
    conn.param = some ∅ ∧ (s.workers conn.loop).ioEvs conn.connfd = none ∧
      ∀ mod, ¬s.Booked conn.connfd mod
  | .registered =>
    conn.param = some ∅ ∧ (s.workers conn.loop).ioEvs conn.connfd = some c ∧
      ∀ mod, ¬s.Booked conn.connfd mod
  | .serving =>
    (s.workers conn.loop).ioEvs conn.connfd = some c ∧ s.conns conn.connfd = some c ∧
      ∃ l, conn.param = some l ∧ ∀ mod, s.Booked conn.connfd mod ↔ mod ∈ l
  | .subscribing m =>
    (s.workers conn.loop).ioEvs conn.connfd = some c ∧ s.conns conn.connfd = some c ∧
      ∃ l, conn.param = some l ∧ m ∈ l ∧ ∀ mod, s.Booked conn.connfd mod ↔ mod ∈ l ∧ mod ≠ m
  | .leaving rest =>
    (s.workers conn.loop).ioEvs conn.connfd = some c ∧ s.conns conn.connfd = some c ∧
      ∃ l, conn.param = some l ∧ rest ⊆ l ∧ ∀ mod, s.Booked conn.connfd mod ↔ mod ∈ rest
  | .unlisted =>
    conn.param = none ∧ (s.workers conn.loop).ioEvs conn.connfd = some c ∧
      ∀ mod, ¬s.Booked conn.connfd mod
  | .removed =>
    conn.param = none ∧ (s.workers conn.loop).ioEvs conn.connfd = some c ∧
      ∀ mod, ¬s.Booked conn.connfd mod
  | .deaf =>
    conn.param = none ∧ (s.workers conn.loop).ioEvs conn.connfd = none ∧
      ∀ mod, ¬s.Booked conn.connfd mod

/-- What happens elsewhere does not matter. -/
theorem AtStage.congr {st : ConnStage} (h : AtStage s c conn st) (hfd : conn'.connfd = conn.connfd)
    (hloop : conn'.loop = conn.loop) (hparam : conn'.param = conn.param)
    (hio : (s'.workers conn.loop).ioEvs conn.connfd = (s.workers conn.loop).ioEvs conn.connfd)
    (hconns : s'.conns conn.connfd = s.conns conn.connfd)
    (hbook : ∀ mod, s'.Booked conn.connfd mod ↔ s.Booked conn.connfd mod) : AtStage s' c conn' st := by
  cases st <;> simp only [AtStage, hfd, hloop, hparam, hio, hconns, hbook] at h ⊢ <;> exact h

/-- A connection that is not closed. -/
structure OpenConn (p : Process n) (s : DnsServer n) (c : ConnAddr) (conn : DnsConn n) : Prop where
  isOpen : conn.connfd ∈ s.openFds
  noEvent : ∀ w, conn.connfd ≠ p.evfd w
  stage : AtStage s c conn ((s.workers conn.loop).job.stage c)

/-- **Every connection is as its stage wants**, and the descriptors lead to their own
connections. -/
structure Wired (p : Process n) (s : DnsServer n) : Prop where
  evfds : ∀ w, p.evfd w ∈ s.openFds
  nonneg : ∀ fd ∈ s.openFds, 0 ≤ fd
  conn : ∀ c conn, s.heap.read c = some conn → conn.connfd ≠ -1 → OpenConn p s c conn
  closed : ∀ c conn, s.heap.read c = some conn → conn.connfd = -1 → conn.param = none
  fds : ∀ c d conn conn', s.heap.read c = some conn → s.heap.read d = some conn' →
    conn.connfd ≠ -1 → conn'.connfd = conn.connfd → d = c
  job : ∀ w c, (s.workers w).job.conn = some c →
    ∃ conn, s.heap.read c = some conn ∧ conn.loop = w ∧ conn.connfd ≠ -1
  ioEvs : ∀ w fd c, (s.workers w).ioEvs fd = some c →
    ∃ conn, s.heap.read c = some conn ∧ conn.loop = w ∧ conn.connfd = fd ∧ fd ≠ -1
  booked : ∀ fd mod, s.Booked fd mod → ∃ c conn, s.heap.read c = some conn ∧ conn.connfd = fd ∧ fd ≠ -1
  noEmpty : ∀ mod, s.bookList mod ≠ some ∅
  queued : ∀ w fd, .newConn fd ∈ (s.workers w).queue → fd ∈ s.openFds ∧ (∀ v, fd ≠ p.evfd v) ∧
    ∀ c conn, s.heap.read c = some conn → conn.connfd ≠ fd
  queuedOnce : ∀ v w fd, .newConn fd ∈ (s.workers v).queue → .newConn fd ∈ (s.workers w).queue → v = w
  queueNodup : ∀ w fd, (s.workers w).queue.count (.newConn fd) ≤ 1

/-! ## Steps that leave the wiring alone -/

/-- What the wiring depends on is the same. -/
structure SameWiring (s s' : DnsServer n) : Prop where
  openFds : s'.openFds = s.openFds
  conns : s'.conns = s.conns
  bookList : s'.bookList = s.bookList
  back : ∀ c conn', s'.heap.read c = some conn' → ∃ conn, s.heap.read c = some conn ∧
    conn'.connfd = conn.connfd ∧ conn'.loop = conn.loop ∧ conn'.param = conn.param
  forth : ∀ c conn, s.heap.read c = some conn → ∃ conn', s'.heap.read c = some conn' ∧
    conn'.connfd = conn.connfd ∧ conn'.loop = conn.loop ∧ conn'.param = conn.param
  ioEvs : ∀ w, (s'.workers w).ioEvs = (s.workers w).ioEvs
  queue : ∀ w fd, (s'.workers w).queue.count (.newConn fd) = (s.workers w).queue.count (.newConn fd)
  stage : ∀ w c, (s'.workers w).job.stage c = (s.workers w).job.stage c
  job : ∀ w c, (s'.workers w).job.conn = some c → (s.workers w).job.conn = some c

theorem SameWiring.mem_queue (h : SameWiring s s') :
    .newConn fd ∈ (s'.workers w).queue ↔ .newConn fd ∈ (s.workers w).queue := by
  rw [← List.count_pos_iff, ← List.count_pos_iff, h.queue]

theorem SameWiring.booked (h : SameWiring s s') : s'.Booked fd mod ↔ s.Booked fd mod := by
  rw [Booked, Booked, h.bookList]

theorem Wired.same (h : Wired p s) (hs : SameWiring s s') : Wired p s' := by
  refine {
    evfds := fun w => hs.openFds ▸ h.evfds w
    nonneg := fun fd hfd => h.nonneg fd (hs.openFds ▸ hfd)
    conn := ?conn, closed := ?closed, fds := ?fds, job := ?job, ioEvs := ?ioEvs, booked := ?booked
    noEmpty := ?noEmpty, queued := ?queued, queuedOnce := ?queuedOnce, queueNodup := ?queueNodup }
  case conn =>
    intro c conn' hc hne
    obtain ⟨conn, hread, hfd, hloop, hparam⟩ := hs.back c conn' hc
    have ho := h.conn c conn hread (hfd ▸ hne)
    refine ⟨?_, ?_, ?_⟩
    · rw [hfd, hs.openFds]
      exact ho.isOpen
    · rw [hfd]
      exact ho.noEvent
    · rw [hloop, hs.stage]
      refine ho.stage.congr hfd hloop hparam ?_ ?_ fun mod => hs.booked
      · rw [hs.ioEvs]
      · rw [hs.conns]
  case closed =>
    intro c conn' hc hfd
    obtain ⟨conn, hread, hfd', -, hparam⟩ := hs.back c conn' hc
    rw [hparam]
    exact h.closed c conn hread (hfd' ▸ hfd)
  case fds =>
    intro c d b b' hc hd hne heq
    obtain ⟨conn, hread, hfd, -⟩ := hs.back c b hc
    obtain ⟨conn', hread', hfd', -⟩ := hs.back d b' hd
    exact h.fds c d conn conn' hread hread' (hfd ▸ hne) (by rw [← hfd', ← hfd, heq])
  case job =>
    intro w c hj
    obtain ⟨conn, hread, hloop, hne⟩ := h.job w c (hs.job w c hj)
    obtain ⟨conn', hread', hfd', hloop', -⟩ := hs.forth c conn hread
    exact ⟨conn', hread', hloop'.trans hloop, hfd' ▸ hne⟩
  case ioEvs =>
    intro w fd c hio
    rw [hs.ioEvs] at hio
    obtain ⟨conn, hread, hloop, hfd, hne⟩ := h.ioEvs w fd c hio
    obtain ⟨conn', hread', hfd', hloop', -⟩ := hs.forth c conn hread
    exact ⟨conn', hread', hloop'.trans hloop, hfd'.trans hfd, hne⟩
  case booked =>
    intro fd mod hb
    obtain ⟨c, conn, hread, hfd, hne⟩ := h.booked fd mod (hs.booked.1 hb)
    obtain ⟨conn', hread', hfd', -⟩ := hs.forth c conn hread
    exact ⟨c, conn', hread', hfd'.trans hfd, hne⟩
  case noEmpty =>
    rw [hs.bookList]
    exact h.noEmpty
  case queued =>
    intro w fd hq
    obtain ⟨hopen, hev, hno⟩ := h.queued w fd (hs.mem_queue.1 hq)
    refine ⟨hs.openFds ▸ hopen, hev, fun c b hb => ?_⟩
    obtain ⟨conn, hread, hfd, -⟩ := hs.back c b hb
    rw [hfd]
    exact hno c conn hread
  case queuedOnce =>
    exact fun v w fd hv hw => h.queuedOnce v w fd (hs.mem_queue.1 hv) (hs.mem_queue.1 hw)
  case queueNodup =>
    intro w fd
    rw [hs.queue]
    exact h.queueNodup w fd

/-! ## Steps of one connection -/

/-- A step of worker `w` on its connection `c`, which becomes `conn'`. -/
structure OwnStep (s s' : DnsServer n) (w : Fin n) (c : ConnAddr) (conn conn' : DnsConn n) : Prop where
  before : ∀ d, (s.workers w).job.conn = some d → d = c
  openFds : s'.openFds = s.openFds
  read : s'.heap.read c = some conn'
  readOther : ∀ d, d ≠ c → s'.heap.read d = s.heap.read d
  connfd : conn'.connfd = conn.connfd
  loop : conn'.loop = conn.loop
  workers : ∀ v, v ≠ w → s'.workers v = s.workers v
  queue : (s'.workers w).queue = (s.workers w).queue
  ioOther : ∀ fd, fd ≠ conn.connfd → (s'.workers w).ioEvs fd = (s.workers w).ioEvs fd
  ioOwn : ∀ d, (s'.workers w).ioEvs conn.connfd = some d → d = c
  job : ∀ d, (s'.workers w).job.conn = some d → d = c
  conns : ∀ fd, fd ≠ conn.connfd → s'.conns fd = s.conns fd
  booked : ∀ fd, fd ≠ conn.connfd → ∀ mod, s'.Booked fd mod ↔ s.Booked fd mod
  noEmpty : ∀ mod, s'.bookList mod ≠ some ∅
  stage : AtStage s' c conn' ((s'.workers w).job.stage c)

theorem Wired.own (h : Wired p s) (hc : s.heap.read c = some conn) (hw : conn.loop = w)
    (hne : conn.connfd ≠ -1) (hs : OwnStep s s' w c conn conn') : Wired p s' := by
  have ho := h.conn c conn hc hne
  have hqueue : ∀ v, (s'.workers v).queue = (s.workers v).queue := by
    intro v
    by_cases hv : v = w
    · rw [hv, hs.queue]
    · rw [hs.workers v hv]
  -- an object other than `c` is as it was
  have hread : ∀ d b, s'.heap.read d = some b → d = c ∧ b = conn' ∨ d ≠ c ∧ s.heap.read d = some b := by
    intro d b hd
    by_cases hdc : d = c
    · subst hdc
      rw [hs.read] at hd
      cases hd
      exact Or.inl ⟨rfl, rfl⟩
    · rw [hs.readOther d hdc] at hd
      exact Or.inr ⟨hdc, hd⟩
  have hforth : ∀ d b, s.heap.read d = some b → ∃ b', s'.heap.read d = some b' ∧
      b'.connfd = b.connfd ∧ b'.loop = b.loop := by
    intro d b hd
    by_cases hdc : d = c
    · subst hdc
      rw [hc] at hd
      cases hd
      exact ⟨conn', hs.read, hs.connfd, hs.loop⟩
    · exact ⟨b, (hs.readOther d hdc).trans hd, rfl, rfl⟩
  refine {
    evfds := fun w => hs.openFds ▸ h.evfds w
    nonneg := fun fd hfd => h.nonneg fd (hs.openFds ▸ hfd)
    noEmpty := hs.noEmpty
    conn := ?conn, closed := ?closed, fds := ?fds, job := ?job, ioEvs := ?ioEvs, booked := ?booked
    queued := ?queued, queuedOnce := ?queuedOnce, queueNodup := ?queueNodup }
  case conn =>
    intro d b hd hdne
    rcases hread d b hd with ⟨rfl, rfl⟩ | ⟨hdc, hd'⟩
    · refine ⟨?_, ?_, ?_⟩
      · rw [hs.connfd, hs.openFds]
        exact ho.isOpen
      · rw [hs.connfd]
        exact ho.noEvent
      · rw [hs.loop, hw]
        exact hs.stage
    · have hod := h.conn d b hd' hdne
      -- another open connection has another number, which the step leaves alone
      have hfd : b.connfd ≠ conn.connfd := fun heq => hdc (h.fds c d conn b hc hd' hne heq)
      refine ⟨hs.openFds ▸ hod.isOpen, hod.noEvent, ?_⟩
      have hstage : (s'.workers b.loop).job.stage d = (s.workers b.loop).job.stage d := by
        by_cases hbw : b.loop = w
        · rw [hbw, Job.stage_of_ne fun hj => hdc (hs.job d hj),
            Job.stage_of_ne fun hj => hdc (hs.before d hj)]
        · rw [hs.workers _ hbw]
      rw [hstage]
      refine hod.stage.congr rfl rfl rfl ?_ (hs.conns _ hfd) (hs.booked _ hfd)
      by_cases hbw : b.loop = w
      · rw [hbw, hs.ioOther _ hfd]
      · rw [hs.workers _ hbw]
  case closed =>
    intro d b hd hb
    rcases hread d b hd with ⟨rfl, rfl⟩ | ⟨-, hd'⟩
    · rw [hs.connfd] at hb
      exact absurd hb hne
    · exact h.closed d b hd' hb
  case fds =>
    intro d e b b' hd he hdne heq
    rcases hread d b hd with ⟨rfl, rfl⟩ | ⟨hdc, hd'⟩ <;> rcases hread e b' he with ⟨rfl, rfl⟩ | ⟨hec, he'⟩
    · rfl
    · rw [hs.connfd] at heq
      exact h.fds d e conn b' hc he' hne heq
    · rw [hs.connfd] at heq
      exact h.fds d e b conn hd' hc hdne heq
    · exact h.fds d e b b' hd' he' hdne heq
  case job =>
    intro v d hj
    by_cases hv : v = w
    · subst hv
      rw [hs.job d hj]
      exact ⟨conn', hs.read, hs.loop.trans hw, hs.connfd ▸ hne⟩
    · rw [hs.workers v hv] at hj
      obtain ⟨b, hb, hloop, hbne⟩ := h.job v d hj
      obtain ⟨b', hb', hfd', hloop'⟩ := hforth d b hb
      exact ⟨b', hb', hloop'.trans hloop, hfd' ▸ hbne⟩
  case ioEvs =>
    intro v fd d hio
    -- a callback that was not there before is the one of `c`
    have hold : (v = w ∧ fd = conn.connfd ∧ d = c) ∨ (s.workers v).ioEvs fd = some d := by
      by_cases hv : v = w
      · subst hv
        by_cases hfd : fd = conn.connfd
        · rw [hfd] at hio
          exact Or.inl ⟨rfl, hfd, hs.ioOwn d hio⟩
        · rw [hs.ioOther fd hfd] at hio
          exact Or.inr hio
      · rw [hs.workers v hv] at hio
        exact Or.inr hio
    rcases hold with ⟨rfl, rfl, rfl⟩ | hio'
    · exact ⟨conn', hs.read, hs.loop.trans hw, hs.connfd, hne⟩
    · obtain ⟨b, hb, hloop, hfd, hbne⟩ := h.ioEvs v fd d hio'
      obtain ⟨b', hb', hfd', hloop'⟩ := hforth d b hb
      exact ⟨b', hb', hloop'.trans hloop, hfd'.trans hfd, hbne⟩
  case booked =>
    intro fd mod hb
    by_cases hfd : fd = conn.connfd
    · exact ⟨c, conn', hs.read, hs.connfd.trans hfd.symm, hfd ▸ hne⟩
    · obtain ⟨d, b, hd, hbfd, hbne⟩ := h.booked fd mod ((hs.booked fd hfd mod).1 hb)
      obtain ⟨b', hb', hfd', -⟩ := hforth d b hd
      exact ⟨d, b', hb', hfd'.trans hbfd, hbne⟩
  case queued =>
    intro v fd hq
    rw [hqueue] at hq
    obtain ⟨hopen, hev, hno⟩ := h.queued v fd hq
    refine ⟨hs.openFds ▸ hopen, hev, fun d b hd => ?_⟩
    rcases hread d b hd with ⟨rfl, rfl⟩ | ⟨-, hd'⟩
    · rw [hs.connfd]
      exact hno d conn hc
    · exact hno d b hd'
  case queuedOnce =>
    intro u v fd hu hv
    rw [hqueue] at hu hv
    exact h.queuedOnce u v fd hu hv
  case queueNodup =>
    intro v fd
    rw [hqueue]
    exact h.queueNodup v fd

/-! ## The two lists -/

theorem mem_bookInsert {book : UInt64 → Option (Finset Fd)} {fd' : Fd} {mod' : UInt64} :
    (∃ fds, bookInsert mod fd book mod' = some fds ∧ fd' ∈ fds) ↔
      (∃ fds, book mod' = some fds ∧ fd' ∈ fds) ∨ (fd' = fd ∧ mod' = mod) := by
  unfold bookInsert
  by_cases hm : mod' = mod
  · subst hm
    rw [Function.update_self]
    cases book mod' with
    | none => simp
    | some fds => simp [or_comm]
  · rw [Function.update_of_ne hm]
    simp [hm]

theorem bookInsert_noEmpty {book : UInt64 → Option (Finset Fd)} (h : ∀ m, book m ≠ some ∅) :
    ∀ m, bookInsert mod fd book m ≠ some ∅ := by
  intro m
  unfold bookInsert
  by_cases hm : m = mod
  · subst hm
    rw [Function.update_self]
    simp
  · rw [Function.update_of_ne hm]
    exact h m

theorem bookErase_ne {book : UInt64 → Option (Finset Fd)} {mod' : UInt64} (hm : mod' ≠ mod) :
    bookErase mod fd book mod' = book mod' := by
  unfold bookErase
  rcases book mod with _ | fds
  · rfl
  · exact Function.update_of_ne hm ..

theorem bookErase_none {book : UInt64 → Option (Finset Fd)} (hb : book mod = none) :
    bookErase mod fd book mod = none := by
  unfold bookErase
  rw [hb]
  exact hb

theorem bookErase_some {book : UInt64 → Option (Finset Fd)} {fds : Finset Fd} (hb : book mod = some fds) :
    bookErase mod fd book mod = if fds.erase fd = ∅ then none else some (fds.erase fd) := by
  unfold bookErase
  rw [hb]
  exact Function.update_self ..

theorem mem_bookErase {book : UInt64 → Option (Finset Fd)} {fd' : Fd} {mod' : UInt64} :
    (∃ fds, bookErase mod fd book mod' = some fds ∧ fd' ∈ fds) ↔
      (∃ fds, book mod' = some fds ∧ fd' ∈ fds) ∧ ¬(fd' = fd ∧ mod' = mod) := by
  by_cases hm : mod' = mod
  · subst hm
    rcases hb : book mod' with _ | fds
    · simp [bookErase_none hb]
    · rw [bookErase_some hb]
      split
      · rename_i hempty
        have hall : ∀ x ∈ fds, x = fd := by
          intro x hx
          by_contra hne
          have hmem : x ∈ fds.erase fd := Finset.mem_erase.2 ⟨hne, hx⟩
          rw [hempty] at hmem
          exact absurd hmem (Finset.notMem_empty x)
        constructor
        · rintro ⟨_, ⟨⟩, -⟩
        · rintro ⟨⟨_, ⟨⟩, hx⟩, hne⟩
          exact absurd ⟨hall fd' hx, rfl⟩ hne
      · simp [and_comm]
  · rw [bookErase_ne hm]
    simp [hm]

theorem bookErase_noEmpty {book : UInt64 → Option (Finset Fd)} (h : ∀ m, book m ≠ some ∅) :
    ∀ m, bookErase mod fd book m ≠ some ∅ := by
  intro m
  by_cases hm : m = mod
  · subst hm
    rcases hb : book m with _ | fds
    · rw [bookErase_none hb]
      simp
    · rw [bookErase_some hb]
      split
      · simp
      · rename_i hne
        simpa using hne
  · rw [bookErase_ne hm]
    exact h m

/-! ## The moves -/

/-- The loop's callbacks lead to this connection only. -/
theorem Wired.ioOwn (h : Wired p s) (hc : s.heap.read c = some conn) (hne : conn.connfd ≠ -1)
    (hd : (s.workers w).ioEvs conn.connfd = some d) : d = c := by
  obtain ⟨b, hb, -, hfd, -⟩ := h.ioEvs w conn.connfd d hd
  exact h.fds c d conn b hc hb hne hfd

/-- A worker without a job has its connection serving. -/
theorem Wired.serving (h : Wired p s) (hc : s.heap.read c = some conn) (hne : conn.connfd ≠ -1)
    (hjob : (s.workers conn.loop).job.conn ≠ some c) : AtStage s c conn .serving := by
  have hstage := (h.conn c conn hc hne).stage
  rwa [Job.stage_of_ne hjob] at hstage

/-- The connection of a job. -/
theorem Wired.ofJob (h : Wired p s) (hc : s.heap.read c = some conn)
    (hj : (s.workers w).job.conn = some c) :
    conn.loop = w ∧ conn.connfd ≠ -1 ∧ AtStage s c conn ((s.workers w).job.stage c) := by
  obtain ⟨b, hb, hloop, hne⟩ := h.job w c hj
  rw [hc] at hb
  cases hb
  exact ⟨hloop, hne, hloop ▸ (h.conn c conn hc hne).stage⟩

theorem Wired.ofIo (h : Wired p s) (hc : s.heap.read c = some conn)
    (hio : (s.workers w).ioEvs fd = some c) : conn.loop = w ∧ conn.connfd = fd ∧ conn.connfd ≠ -1 := by
  obtain ⟨b, hb, hloop, hfd, hne⟩ := h.ioEvs w fd c hio
  rw [hc] at hb
  cases hb
  exact ⟨hloop, hfd, hfd ▸ hne⟩

/-- The connection that an event of the loop is about, when the worker has no job. -/
theorem Wired.ofEvent (h : Wired p s) (hjob : (s.workers w).job = .idle)
    (hio : (s.workers w).ioEvs fd = some c) (hc : s.heap.read c = some conn) :
    conn.loop = w ∧ conn.connfd ≠ -1 ∧ (∀ d, (s.workers w).job.conn ≠ some d) ∧
      AtStage s c conn .serving := by
  obtain ⟨hw, -, hne⟩ := h.ofIo hc hio
  have hidle : ∀ d, (s.workers w).job.conn ≠ some d := by
    intro d hd
    rw [hjob] at hd
    cases hd
  exact ⟨hw, hne, hidle, h.serving hc hne (hw ▸ hidle c)⟩

/-- `do_accept` sends a number that was free. -/
theorem wired_accept (h : Wired p s) (h0 : 0 ≤ fd) (hnew : fd ∉ s.openFds) :
    Wired p { s.send w (.newConn fd) with openFds := insert fd s.openFds } := by
  -- the numbers of the connections are open, and the new one was not
  have hne : ∀ c conn, s.heap.read c = some conn → conn.connfd ≠ fd := by
    rintro c conn hc rfl
    exact hnew (h.conn c conn hc (ne_of_nonneg h0)).isOpen
  have hmem : ∀ v fd', .newConn fd' ∈ ((s.send w (.newConn fd)).workers v).queue →
      .newConn fd' ∈ (s.workers v).queue ∨ (v = w ∧ fd' = fd) := by
    intro v fd' hq
    by_cases hv : v = w
    · subst hv
      rw [send, modifyWorker_self] at hq
      simpa using hq
    · rw [send, modifyWorker_ne hv] at hq
      exact Or.inl hq
  have hworker : ∀ v, ((s.send w (.newConn fd)).workers v).ioEvs = (s.workers v).ioEvs ∧
      ((s.send w (.newConn fd)).workers v).job = (s.workers v).job := by
    intro v
    by_cases hv : v = w
    · subst hv
      rw [send, modifyWorker_self]
      exact ⟨rfl, rfl⟩
    · rw [send, modifyWorker_ne hv]
      exact ⟨rfl, rfl⟩
  have hold : ∀ v, .newConn fd ∉ (s.workers v).queue := fun v hq => hnew (h.queued v fd hq).1
  refine {
    evfds := fun w => Finset.mem_insert_of_mem (h.evfds w)
    closed := h.closed, fds := h.fds, booked := h.booked, noEmpty := h.noEmpty
    nonneg := ?nonneg, conn := ?conn, job := ?job, ioEvs := ?ioEvs
    queued := ?queued, queuedOnce := ?queuedOnce, queueNodup := ?queueNodup }
  case nonneg =>
    intro fd' hfd'
    rcases Finset.mem_insert.1 hfd' with rfl | hfd'
    · exact h0
    · exact h.nonneg fd' hfd'
  case conn =>
    intro c conn hc hcne
    have ho := h.conn c conn hc hcne
    refine ⟨Finset.mem_insert_of_mem ho.isOpen, ho.noEvent, ?_⟩
    have hw := hworker conn.loop
    have hstage := ho.stage
    rw [← hw.2] at hstage
    exact hstage.congr rfl rfl rfl (congrFun hw.1 _) rfl fun _ => Iff.rfl
  case job =>
    intro v c hj
    rw [show ((s.send w (.newConn fd)).workers v).job = (s.workers v).job from (hworker v).2] at hj
    exact h.job v c hj
  case ioEvs =>
    intro v fd' c hio
    rw [show ((s.send w (.newConn fd)).workers v).ioEvs = (s.workers v).ioEvs from (hworker v).1] at hio
    exact h.ioEvs v fd' c hio
  case queued =>
    intro v fd' hq
    rcases hmem v fd' hq with hq' | ⟨-, rfl⟩
    · obtain ⟨hopen, hrest⟩ := h.queued v fd' hq'
      exact ⟨Finset.mem_insert_of_mem hopen, hrest⟩
    · exact ⟨Finset.mem_insert_self .., fun u heq => hnew (heq ▸ h.evfds u), hne⟩
  case queuedOnce =>
    intro u v fd' hu hv
    rcases hmem u fd' hu with hu' | ⟨rfl, rfl⟩ <;> rcases hmem v fd' hv with hv' | ⟨rfl, heq⟩
    · exact h.queuedOnce u v fd' hu' hv'
    · exact absurd (heq ▸ hu') (hold u)
    · exact absurd hv' (hold v)
    · rfl
  case queueNodup =>
    intro v fd'
    by_cases hv : v = w
    · subst hv
      show (((s.send v (.newConn fd)).workers v).queue).count _ ≤ 1
      rw [send, modifyWorker_self, List.count_append]
      by_cases hfd : fd' = fd
      · rw [hfd, List.count_eq_zero_of_not_mem (hold v)]
        simp
      · have hcount := h.queueNodup v fd'
        rw [List.count_cons_of_ne (by simpa using Ne.symm hfd)]
        simpa using hcount
    · show (((s.send w (.newConn fd)).workers v).queue).count _ ≤ 1
      rw [send, modifyWorker_ne hv]
      exact h.queueNodup v fd'

/-- The constructor of a connection begins: its number is one that `do_accept` got. -/
theorem wired_newConn (h : Wired p s) {queue : List TaskMsg} (hjob : (s.workers w).job = .idle)
    (hq : (s.workers w).queue = .newConn fd :: queue) :
    Wired p ({ s with heap := s.heap.alloc ⟨fd, w, some ∅, []⟩ }.modifyWorker w fun k =>
      { k with queue := queue, job := .addIoEvent s.heap.next }) := by
  have hmem : .newConn fd ∈ (s.workers w).queue := by
    rw [hq]
    exact List.mem_cons_self
  -- no connection has the number yet, so no callback and no book entry has it
  obtain ⟨hopen, hev, hno⟩ := h.queued w fd hmem
  have hne : fd ≠ -1 := ne_of_nonneg (h.nonneg fd hopen)
  have hnone : (s.workers w).ioEvs fd = none := by
    rcases hio : (s.workers w).ioEvs fd with _ | c
    · rfl
    · obtain ⟨b, hb, -, hfd, -⟩ := h.ioEvs w fd c hio
      exact absurd hfd (hno c b hb)
  have hunbooked : ∀ mod, ¬s.Booked fd mod := by
    intro mod hb
    obtain ⟨c, b, hread, hfd, -⟩ := h.booked fd mod hb
    exact hno c b hread hfd
  have hidle : ∀ c, (s.workers w).job.conn ≠ some c := by
    intro c hc
    rw [hjob] at hc
    cases hc
  -- the new object is in the constructor, all others are as they were
  have hread : ∀ c b, (s.heap.alloc ⟨fd, w, some ∅, []⟩).read c = some b →
      (c = s.heap.next ∧ b = ⟨fd, w, some ∅, []⟩) ∨ (c ≠ s.heap.next ∧ s.heap.read c = some b) := by
    intro c b hc
    by_cases hcn : c = s.heap.next
    · subst hcn
      rw [Heap.read_alloc_next] at hc
      cases hc
      exact Or.inl ⟨rfl, rfl⟩
    · rw [Heap.read_alloc_ne hcn] at hc
      exact Or.inr ⟨hcn, hc⟩
  set s' := { s with heap := s.heap.alloc ⟨fd, w, some ∅, []⟩ }.modifyWorker w fun k =>
    { k with queue := queue, job := .addIoEvent s.heap.next } with hs'
  have hself : s'.workers w =
      { s.workers w with queue := queue, job := .addIoEvent s.heap.next } := modifyWorker_self
  have hothers : ∀ v, v ≠ w → s'.workers v = s.workers v := fun v hv => modifyWorker_ne hv
  have hio : ∀ v, (s'.workers v).ioEvs = (s.workers v).ioEvs := by
    intro v
    by_cases hv : v = w
    · rw [hv, hself]
    · rw [hothers v hv]
  have hqueue : ∀ v fd', .newConn fd' ∈ (s'.workers v).queue → .newConn fd' ∈ (s.workers v).queue := by
    intro v fd' hmem'
    by_cases hv : v = w
    · subst hv
      rw [hself] at hmem'
      rw [hq]
      exact List.mem_cons_of_mem _ hmem'
    · rwa [hothers v hv] at hmem'
  -- the number was in this queue once, and in no other
  have hcount := h.queueNodup w fd
  rw [hq, List.count_cons_self] at hcount
  have hgone : .newConn fd ∉ queue := by
    intro hmem'
    have := List.count_pos_iff.2 hmem'
    omega
  refine {
    evfds := h.evfds, nonneg := h.nonneg, noEmpty := h.noEmpty
    conn := ?conn, closed := ?closed, fds := ?fds, job := ?job, ioEvs := ?ioEvs, booked := ?booked
    queued := ?queued, queuedOnce := ?queuedOnce, queueNodup := ?queueNodup }
  case conn =>
    intro c b hc hbne
    rcases hread c b hc with ⟨rfl, rfl⟩ | ⟨hcn, hc'⟩
    · refine ⟨hopen, hev, ?_⟩
      show AtStage s' _ _ ((s'.workers w).job.stage _)
      rw [hself, Job.stage_addIoEvent]
      refine ⟨rfl, ?_, hunbooked⟩
      show (s'.workers w).ioEvs fd = none
      rw [hio, hnone]
    · have ho := h.conn c b hc' hbne
      refine ⟨ho.isOpen, ho.noEvent, ?_⟩
      have hstage : (s'.workers b.loop).job.stage c = (s.workers b.loop).job.stage c := by
        by_cases hbw : b.loop = w
        · rw [hbw, hself, Job.stage_of_ne (hidle c), Job.stage_of_ne]
          intro heq
          cases heq
          exact hcn rfl
        · rw [hothers _ hbw]
      rw [hstage]
      exact ho.stage.congr rfl rfl rfl (congrFun (hio _) _) rfl fun _ => Iff.rfl
  case closed =>
    intro c b hc hb
    rcases hread c b hc with ⟨rfl, rfl⟩ | ⟨-, hc'⟩
    · exact absurd hb hne
    · exact h.closed c b hc' hb
  case fds =>
    intro c d b b' hc hd hbne heq
    rcases hread c b hc with ⟨rfl, rfl⟩ | ⟨-, hc'⟩ <;> rcases hread d b' hd with ⟨rfl, rfl⟩ | ⟨-, hd'⟩
    · rfl
    · exact absurd heq (hno d b' hd')
    · exact absurd heq.symm (hno c b hc')
    · exact h.fds c d b b' hc' hd' hbne heq
  case job =>
    intro v c hj
    by_cases hv : v = w
    · subst hv
      rw [hself] at hj
      cases hj
      exact ⟨_, Heap.read_alloc_next, rfl, hne⟩
    · rw [hothers v hv] at hj
      obtain ⟨b, hb, hrest⟩ := h.job v c hj
      exact ⟨b, Heap.read_alloc_of_read hb, hrest⟩
  case ioEvs =>
    intro v fd' c hc
    rw [hio] at hc
    obtain ⟨b, hb, hrest⟩ := h.ioEvs v fd' c hc
    exact ⟨b, Heap.read_alloc_of_read hb, hrest⟩
  case booked =>
    intro fd' mod hb
    obtain ⟨c, b, hc, hrest⟩ := h.booked fd' mod hb
    exact ⟨c, b, Heap.read_alloc_of_read hc, hrest⟩
  case queued =>
    intro v fd' hmem'
    obtain ⟨hopen', hev', hno'⟩ := h.queued v fd' (hqueue v fd' hmem')
    refine ⟨hopen', hev', fun c b hc => ?_⟩
    rcases hread c b hc with ⟨rfl, rfl⟩ | ⟨-, hc'⟩
    · -- a task that is still waiting is about another number
      rintro rfl
      have hvw := h.queuedOnce v w _ (hqueue v _ hmem') hmem
      subst hvw
      rw [hself] at hmem'
      exact hgone hmem'
    · exact hno' c b hc'
  case queuedOnce =>
    exact fun u v fd' hu hv => h.queuedOnce u v fd' (hqueue u fd' hu) (hqueue v fd' hv)
  case queueNodup =>
    intro v fd'
    by_cases hv : v = w
    · subst hv
      have hcount' := h.queueNodup v fd'
      rw [hq, List.count_cons] at hcount'
      rw [hself]
      show queue.count _ ≤ 1
      omega
    · rw [hothers v hv]
      exact h.queueNodup v fd'

/-- The last statement of `clean_conn`: the number is free again, and nothing leads to it. -/
theorem wired_close (h : Wired p s) (hjob : (s.workers w).job = .close c) (hc : s.heap.read c = some conn) :
    Wired p (({ s with openFds := s.openFds.erase conn.connfd }.modifyConn c fun b =>
      { b with connfd := -1 }).setJob w .idle) := by
  have hj : (s.workers w).job.conn = some c := by rw [hjob]; rfl
  obtain ⟨hw, hne, hstage⟩ := h.ofJob hc hj
  rw [hjob, Job.stage_close] at hstage
  obtain ⟨hparam, hdeaf, hunbooked⟩ := hstage
  have ho := h.conn c conn hc hne
  set s' := ({ s with openFds := s.openFds.erase conn.connfd }.modifyConn c fun b =>
    { b with connfd := -1 }).setJob w .idle with hs'
  have hself : s'.workers w = { s.workers w with job := .idle } := modifyWorker_self
  have hothers : ∀ v, v ≠ w → s'.workers v = s.workers v := fun v hv => modifyWorker_ne hv
  have hio : ∀ v, (s'.workers v).ioEvs = (s.workers v).ioEvs ∧ (s'.workers v).queue = (s.workers v).queue := by
    intro v
    by_cases hv : v = w
    · rw [hv, hself]
      exact ⟨rfl, rfl⟩
    · rw [hothers v hv]
      exact ⟨rfl, rfl⟩
  have hself' : s'.heap.read c = some { conn with connfd := -1 } := by
    show (s.heap.modify c _).read c = _
    rw [Heap.read_modify_self, hc]
    rfl
  have hread : ∀ d, d ≠ c → s'.heap.read d = s.heap.read d := fun d hd => Heap.read_modify_ne hd
  -- an object that is not closed is another one
  have hopen : ∀ d b, s'.heap.read d = some b → b.connfd ≠ -1 →
      d ≠ c ∧ s.heap.read d = some b ∧ b.connfd ≠ conn.connfd := by
    intro d b hd hbne
    have hdc : d ≠ c := by
      rintro rfl
      rw [hself'] at hd
      cases hd
      exact hbne rfl
    rw [hread d hdc] at hd
    exact ⟨hdc, hd, fun heq => hdc (h.fds c d conn b hc hd hne heq)⟩
  have hforth : ∀ d b, s.heap.read d = some b → b.connfd ≠ conn.connfd → s'.heap.read d = some b := by
    intro d b hd hfd
    rw [hread d]
    · exact hd
    · rintro rfl
      rw [hc] at hd
      cases hd
      exact hfd rfl
  refine {
    noEmpty := h.noEmpty
    evfds := ?evfds, nonneg := ?nonneg, conn := ?conn, closed := ?closed, fds := ?fds, job := ?job
    ioEvs := ?ioEvs, booked := ?booked
    queued := ?queued, queuedOnce := ?queuedOnce, queueNodup := ?queueNodup }
  case evfds =>
    exact fun v => Finset.mem_erase.2 ⟨(ho.noEvent v).symm, h.evfds v⟩
  case nonneg =>
    exact fun fd hfd => h.nonneg fd (Finset.mem_of_mem_erase hfd)
  case conn =>
    intro d b hd hbne
    obtain ⟨hdc, hd', hfd⟩ := hopen d b hd hbne
    have hod := h.conn d b hd' hbne
    refine ⟨Finset.mem_erase.2 ⟨hfd, hod.isOpen⟩, hod.noEvent, ?_⟩
    have hsame : (s'.workers b.loop).job.stage d = (s.workers b.loop).job.stage d := by
      by_cases hbw : b.loop = w
      · have hjd : (s.workers w).job.conn ≠ some d := by
          rw [hj]
          exact fun heq => hdc (Option.some.inj heq).symm
        rw [hbw, hself, Job.stage_of_ne hjd, Job.stage_of_ne]
        exact fun heq => by cases heq
      · rw [hothers _ hbw]
    rw [hsame]
    exact hod.stage.congr rfl rfl rfl (congrFun (hio _).1 _) rfl fun _ => Iff.rfl
  case closed =>
    intro d b hd hb
    by_cases hdc : d = c
    · subst hdc
      rw [hself'] at hd
      cases hd
      exact hparam
    · rw [hread d hdc] at hd
      exact h.closed d b hd hb
  case fds =>
    intro d e b b' hd he hbne heq
    obtain ⟨-, hd', -⟩ := hopen d b hd hbne
    obtain ⟨-, he', -⟩ := hopen e b' he (heq ▸ hbne)
    exact h.fds d e b b' hd' he' hbne heq
  case job =>
    intro v d hjd
    by_cases hv : v = w
    · subst hv
      rw [hself] at hjd
      cases hjd
    · rw [hothers v hv] at hjd
      obtain ⟨b, hb, hloop, hbne⟩ := h.job v d hjd
      refine ⟨b, hforth d b hb fun hfd => hv ?_, hloop, hbne⟩
      have hdc := h.fds c d conn b hc hb hne hfd
      subst hdc
      rw [hc] at hb
      cases hb
      exact hloop.symm.trans hw
  case ioEvs =>
    intro v fd d hd
    rw [(hio v).1] at hd
    obtain ⟨b, hb, hloop, hfd, hbne⟩ := h.ioEvs v fd d hd
    refine ⟨b, hforth d b hb fun hfd' => ?_, hloop, hfd, hbne⟩
    have hdc := h.fds c d conn b hc hb hne hfd'
    subst hdc
    rw [hc] at hb
    cases hb
    -- `del_io_event` has taken the callback of the closed one
    rw [← hloop, ← hfd, hdeaf] at hd
    cases hd
  case booked =>
    intro fd mod hb
    obtain ⟨d, b, hd, hfd, hbne⟩ := h.booked fd mod hb
    refine ⟨d, b, hforth d b hd fun hfd' => ?_, hfd, hbne⟩
    -- `clear_subscribe` has taken its book entries
    rw [← hfd, hfd'] at hb
    exact hunbooked mod hb
  case queued =>
    intro v fd hq
    rw [(hio v).2] at hq
    obtain ⟨hmem, hev, hno⟩ := h.queued v fd hq
    refine ⟨Finset.mem_erase.2 ⟨fun heq => hno c conn hc heq.symm, hmem⟩, hev, fun d b hd => ?_⟩
    by_cases hdc : d = c
    · subst hdc
      rw [hself'] at hd
      cases hd
      exact (ne_of_nonneg (h.nonneg fd hmem)).symm
    · rw [hread d hdc] at hd
      exact hno d b hd
  case queuedOnce =>
    intro u v fd hu hv
    rw [(hio u).2] at hu
    rw [(hio v).2] at hv
    exact h.queuedOnce u v fd hu hv
  case queueNodup =>
    intro v fd
    rw [(hio v).2]
    exact h.queueNodup v fd

/-! ## Every move keeps the wiring -/

/-- A move of a worker that has to do with no connection's stage. -/
theorem SameWiring.ofWorker {f : DnsWorker → DnsWorker} (hs : s' = s.modifyWorker w f)
    (hio : (f (s.workers w)).ioEvs = (s.workers w).ioEvs)
    (hq : ∀ fd, (f (s.workers w)).queue.count (.newConn fd) = (s.workers w).queue.count (.newConn fd))
    (hstage : ∀ c, (f (s.workers w)).job.stage c = (s.workers w).job.stage c)
    (hjob : ∀ c, (f (s.workers w)).job.conn = some c → (s.workers w).job.conn = some c) :
    SameWiring s s' := by
  subst hs
  have hcases : ∀ v, (v = w ∧ (s.modifyWorker w f).workers v = f (s.workers w)) ∨
      (s.modifyWorker w f).workers v = s.workers v := by
    intro v
    by_cases hv : v = w
    · subst hv
      exact Or.inl ⟨rfl, modifyWorker_self⟩
    · exact Or.inr (modifyWorker_ne hv)
  refine ⟨rfl, rfl, rfl, fun c b hc => ⟨b, hc, rfl, rfl, rfl⟩, fun c b hc => ⟨b, hc, rfl, rfl, rfl⟩, ?_, ?_,
    ?_, ?_⟩
  · intro v
    rcases hcases v with ⟨rfl, hv⟩ | hv <;> rw [hv]
    exact hio
  · intro v fd
    rcases hcases v with ⟨rfl, hv⟩ | hv <;> rw [hv]
    exact hq fd
  · intro v c
    rcases hcases v with ⟨rfl, hv⟩ | hv <;> rw [hv]
    exact hstage c
  · intro v c
    rcases hcases v with ⟨rfl, hv⟩ | hv <;> rw [hv]
    · exact hjob c
    · exact id

theorem SameWiring.refl (s : DnsServer n) : SameWiring s s :=
  ⟨rfl, rfl, rfl, fun _ b hc => ⟨b, hc, rfl, rfl, rfl⟩, fun _ b hc => ⟨b, hc, rfl, rfl, rfl⟩, fun _ => rfl,
    fun _ _ => rfl, fun _ _ => rfl, fun _ _ => id⟩

/-- A worker takes up or ends a job on no connection, or goes on serving one. -/
theorem SameWiring.ofJob {j : Job} (hstage : ∀ c, j.stage c = (s.workers w).job.stage c)
    (hjob : ∀ c, j.conn = some c → (s.workers w).job.conn = some c) : SameWiring s (s.setJob w j) :=
  SameWiring.ofWorker rfl rfl (fun _ => rfl) hstage hjob

/-- The push list and what only the checker uses do not matter. -/
theorem SameWiring.shared (h : SameWiring s s') (pushList : Fd → Option (Finset UInt64)) (checker : Checker)
    (sending : Option ℕ) (maps : List RouteMap) (published : List Announcement) :
    SameWiring s { s' with
      pushList := pushList, checker := checker, sending := sending, maps := maps, published := published } :=
  ⟨h.openFds, h.conns, h.bookList, h.back, h.forth, h.ioEvs, h.queue, h.stage, h.job⟩

/-- What was sent does not matter. -/
theorem SameWiring.sent (h : SameWiring s s') {g : DnsConn n → DnsConn n}
    (hg : ∀ b, (g b).connfd = b.connfd ∧ (g b).loop = b.loop ∧ (g b).param = b.param) :
    SameWiring s (s'.modifyConn c g) := by
  refine ⟨h.openFds, h.conns, h.bookList, fun d b hd => ?_, fun d b hd => ?_, h.ioEvs, h.queue, h.stage, h.job⟩
  · rcases Heap.read_modify_cases hd with ⟨rfl, b', hb', rfl⟩ | ⟨-, hd'⟩
    · obtain ⟨conn, hconn, hfd, hloop, hparam⟩ := h.back d b' hb'
      obtain ⟨hfd', hloop', hparam'⟩ := hg b'
      exact ⟨conn, hconn, hfd'.trans hfd, hloop'.trans hloop, hparam'.trans hparam⟩
    · exact h.back d b hd'
  · obtain ⟨b', hb', hfd, hloop, hparam⟩ := h.forth d b hd
    by_cases hdc : d = c
    · subst hdc
      obtain ⟨hfd', hloop', hparam'⟩ := hg b'
      refine ⟨g b', ?_, hfd'.trans hfd, hloop'.trans hloop, hparam'.trans hparam⟩
      rw [modifyConn, Heap.read_modify_self, hb']
      rfl
    · refine ⟨b', ?_, hfd, hloop, hparam⟩
      rw [modifyConn, Heap.read_modify_ne hdc]
      exact hb'

/-- An own step that changes no callback. -/
theorem OwnStep.quiet (h : Wired p s) (hc : s.heap.read c = some conn)
    (hne : conn.connfd ≠ -1) (hbefore : ∀ d, (s.workers w).job.conn = some d → d = c) {j : Job}
    (hj : ∀ d, j.conn = some d → d = c) {g : DnsConn n → DnsConn n}
    (hfd : (g conn).connfd = conn.connfd) (hloop : (g conn).loop = conn.loop)
    (hstage : AtStage ((s.modifyConn c g).setJob w j) c (g conn) (j.stage c)) :
    OwnStep s ((s.modifyConn c g).setJob w j) w c conn (g conn) where
  before := hbefore
  openFds := rfl
  read := by
    show (s.heap.modify c g).read c = _
    rw [Heap.read_modify_self, hc]
    rfl
  readOther := fun d hd => Heap.read_modify_ne hd
  connfd := hfd
  loop := hloop
  workers := fun v hv => modifyWorker_ne hv
  queue := by
    rw [setJob, modifyWorker_self]
    rfl
  ioOther := fun fd _ => by
    rw [setJob, modifyWorker_self]
    rfl
  ioOwn := fun d hd => by
    rw [setJob, modifyWorker_self] at hd
    exact h.ioOwn (w := w) hc hne hd
  job := fun d hd => by
    rw [setJob, modifyWorker_self] at hd
    exact hj d hd
  conns := fun _ _ => rfl
  booked := fun _ _ _ => Iff.rfl
  noEmpty := h.noEmpty
  stage := by
    rw [setJob, modifyWorker_self]
    exact hstage

/-- An own step that changes neither a callback nor the connection. -/
theorem OwnStep.still (h : Wired p s) (conns : Fd → Option ConnAddr)
    (book : UInt64 → Option (Finset Fd)) (hc : s.heap.read c = some conn)
    (hne : conn.connfd ≠ -1) (hbefore : ∀ d, (s.workers w).job.conn = some d → d = c) {j : Job}
    (hj : ∀ d, j.conn = some d → d = c)
    (hconns : ∀ fd, fd ≠ conn.connfd → conns fd = s.conns fd)
    (hbook : ∀ fd, fd ≠ conn.connfd → ∀ mod, (∃ fds, book mod = some fds ∧ fd ∈ fds) ↔ s.Booked fd mod)
    (hempty : ∀ mod, book mod ≠ some ∅)
    (hstage : AtStage ({ s with conns := conns, bookList := book }.setJob w j) c conn (j.stage c)) :
    OwnStep s ({ s with conns := conns, bookList := book }.setJob w j) w c conn conn where
  before := hbefore
  openFds := rfl
  read := hc
  readOther := fun _ _ => rfl
  connfd := rfl
  loop := rfl
  workers := fun v hv => modifyWorker_ne hv
  queue := by
    rw [setJob, modifyWorker_self]
  ioOther := fun fd _ => by
    rw [setJob, modifyWorker_self]
  ioOwn := fun d hd => by
    rw [setJob, modifyWorker_self] at hd
    exact h.ioOwn (w := w) hc hne hd
  job := fun d hd => by
    rw [setJob, modifyWorker_self] at hd
    exact hj d hd
  conns := hconns
  booked := hbook
  noEmpty := hempty
  stage := by
    rw [setJob, modifyWorker_self]
    exact hstage

/-- An own step that changes the callback. -/
theorem OwnStep.callback (h : Wired p s) (hc : s.heap.read c = some conn)
    (hbefore : ∀ d, (s.workers w).job.conn = some d → d = c) {j : Job}
    (hj : ∀ d, j.conn = some d → d = c) {io : Option ConnAddr} (hio : ∀ d, io = some d → d = c)
    (hstage : AtStage (s.modifyWorker w fun k =>
      { k with ioEvs := Function.update k.ioEvs conn.connfd io, job := j }) c conn (j.stage c)) :
    OwnStep s (s.modifyWorker w fun k =>
      { k with ioEvs := Function.update k.ioEvs conn.connfd io, job := j }) w c conn conn where
  before := hbefore
  openFds := rfl
  read := hc
  readOther := fun _ _ => rfl
  connfd := rfl
  loop := rfl
  workers := fun v hv => modifyWorker_ne hv
  queue := by rw [modifyWorker_self]
  ioOther := fun fd hfd => by
    rw [modifyWorker_self]
    exact Function.update_of_ne hfd ..
  ioOwn := fun d hd => by
    rw [modifyWorker_self] at hd
    exact hio d (by simpa using hd)
  job := fun d hd => by
    rw [modifyWorker_self] at hd
    exact hj d hd
  conns := fun _ _ => rfl
  booked := fun _ _ _ => Iff.rfl
  noEmpty := h.noEmpty
  stage := by
    rw [modifyWorker_self]
    exact hstage

/-- The callbacks of a worker whose job changes. -/
theorem setJob_ioEvs (j : Job) : ((s.setJob w j).workers w).ioEvs = (s.workers w).ioEvs := by
  rw [setJob, modifyWorker_self]

/-- The tasks of every worker when the job of one changes. -/
theorem setJob_queue (j : Job) (v : Fin n) : ((s.setJob w j).workers v).queue = (s.workers v).queue := by
  by_cases hv : v = w
  · rw [hv, setJob, modifyWorker_self]
  · rw [setJob, modifyWorker_ne hv]

/-- **Every move keeps the wiring.** -/
theorem move_wired (h : Wired p s) (hm : Move p s e s') : Wired p s' := by
  cases hm with
  | skip => exact h
  | accept w connfd h0 hnew => exact wired_accept h h0 hnew
  | newTask w hjob hq =>
    refine h.same (SameWiring.ofWorker rfl rfl (fun fd => ?_) (fun _ => rfl) fun _ => id)
    rw [hq]
    simp
  | newConn w hjob hq => exact wired_newConn h hjob hq
  | @known w fd req c conn subList hjob hio hc hl hk =>
    obtain ⟨hw, hne, hidle, hst⟩ := h.ofEvent hjob hio hc
    subst hw
    refine h.own hc rfl hne (OwnStep.still h s.conns s.bookList hc hne
      (fun d hd => absurd hd (hidle d)) (fun d hd => by cases hd; rfl) (fun _ _ => rfl)
      (fun _ _ _ => Iff.rfl) h.noEmpty ?_)
    rw [Job.stage_getHosts]
    exact hst.congr rfl rfl rfl (congrFun (setJob_ioEvs _) _) rfl fun _ => Iff.rfl
  | @unknown w fd req c conn subList hjob hio hc hl hk =>
    obtain ⟨hw, hne, hidle, hio', hconns, l, hl', hbook⟩ := h.ofEvent hjob hio hc
    subst hw
    rw [hl] at hl'
    cases hl'
    -- the key is in the list, and not in the book before the next statement
    refine h.own hc rfl hne (OwnStep.quiet h hc hne (fun d hd => absurd hd (hidle d))
      (fun d hd => by cases hd; rfl) rfl rfl ?_)
    rw [Job.stage_subscribe]
    refine ⟨?_, hconns, _, rfl, Finset.mem_insert_self .., fun mod => (hbook mod).trans ?_⟩
    · show ((setJob _ _ _).workers conn.loop).ioEvs _ = _
      rw [setJob_ioEvs]
      exact hio'
    · rw [Finset.mem_insert]
      constructor
      · exact fun hmem => ⟨Or.inr hmem, fun heq => hk (heq ▸ hmem)⟩
      · rintro ⟨rfl | hmem, hne'⟩
        · exact absurd rfl hne'
        · exact hmem
  | @hangUp w fd c conn subList hjob hio hc hl =>
    obtain ⟨hw, hne, hidle, hio', hconns, l, hl', hbook⟩ := h.ofEvent hjob hio hc
    subst hw
    rw [hl] at hl'
    cases hl'
    -- the walk over the list begins with all of it
    refine h.own hc rfl hne (OwnStep.still h s.conns s.bookList hc hne
      (fun d hd => absurd hd (hidle d)) (fun d hd => by cases hd; rfl) (fun _ _ => rfl)
      (fun _ _ _ => Iff.rfl) h.noEmpty ?_)
    rw [Job.stage_unsubscribe]
    exact ⟨(congrFun (setJob_ioEvs _) _).trans hio', hconns, _, hl, Finset.Subset.refl _, hbook⟩
  | runTask w hjob hk =>
    refine h.same (SameWiring.ofWorker rfl rfl (fun _ => rfl) (fun c => ?_) fun c hc => by cases hc)
    rw [hjob]
    rfl
  | @addIoEvent w c conn hjob hc =>
    obtain ⟨hw, hne, hst⟩ := h.ofJob hc (by rw [hjob]; rfl)
    rw [hjob, Job.stage_addIoEvent] at hst
    subst hw
    obtain ⟨hparam, -, hbook⟩ := hst
    refine h.own hc rfl hne (OwnStep.callback h hc (fun d hd => by rw [hjob] at hd; cases hd; rfl)
      (fun d hd => by cases hd; rfl) (fun d hd => (Option.some.inj hd).symm) ?_)
    rw [Job.stage_increaseConn]
    refine ⟨hparam, ?_, hbook⟩
    rw [modifyWorker_self]
    exact Function.update_self ..
  | @increaseConn w c conn hjob hc =>
    obtain ⟨hw, hne, hst⟩ := h.ofJob hc (by rw [hjob]; rfl)
    rw [hjob, Job.stage_increaseConn] at hst
    subst hw
    obtain ⟨hparam, hio, hbook⟩ := hst
    refine h.own hc rfl hne (OwnStep.still h _ s.bookList hc hne
      (fun d hd => by rw [hjob] at hd; cases hd; rfl) (fun d hd => by cases hd)
      (fun fd hfd => Function.update_of_ne hfd ..) (fun _ _ _ => Iff.rfl) h.noEmpty ?_)
    -- the connection serves from here on, with an empty list and no book entry
    rw [Job.stage_of_ne fun hd => by cases hd]
    refine ⟨(congrFun (setJob_ioEvs _) _).trans hio, Function.update_self .., ∅, hparam, fun mod => ?_⟩
    exact ⟨fun hb => absurd hb (hbook mod), fun hmem => absurd hmem (Finset.notMem_empty mod)⟩
  | @subscribe w c conn req hjob hc =>
    obtain ⟨hw, hne, hst⟩ := h.ofJob hc (by rw [hjob]; rfl)
    rw [hjob, Job.stage_subscribe] at hst
    subst hw
    obtain ⟨hio, hconns, l, hl, hmem, hbook⟩ := hst
    refine h.own hc rfl hne (OwnStep.still h s.conns _ hc hne
      (fun d hd => by rw [hjob] at hd; cases hd; rfl) (fun d hd => by cases hd; rfl) (fun _ _ => rfl)
      (fun fd hfd mod => ?_) (bookInsert_noEmpty h.noEmpty) ?_)
    · rw [mem_bookInsert]
      exact ⟨fun hor => hor.resolve_right fun heq => hfd heq.1, Or.inl⟩
    rw [Job.stage_getHosts]
    refine ⟨(congrFun (setJob_ioEvs _) _).trans hio, hconns, l, hl, fun mod => ?_⟩
    refine mem_bookInsert.trans ?_
    show (s.Booked _ mod ∨ _) ↔ _
    rw [hbook mod]
    by_cases hm : mod = subscribeKey req
    · simp [hm, hmem]
    · simp [hm]
  | @getHosts w c req hjob =>
    refine h.same (SameWiring.ofJob (fun d => ?_) fun d hd => by rw [hjob]; exact hd)
    rw [hjob, Job.stage_serving rfl (Job.stage_respond ..), Job.stage_serving rfl (Job.stage_getHosts ..)]
  | @respond w c conn req hosts map walk room hjob hc hwalk =>
    have hsame : SameWiring s (s.setJob w .idle) := by
      refine SameWiring.ofJob (fun d => ?_) fun d hd => by cases hd
      rw [hjob, Job.stage_serving rfl (Job.stage_respond ..)]
      rfl
    refine h.same (hsame.sent fun b => ?_)
    cases room <;> exact ⟨rfl, rfl, rfl⟩
  | @unsubscribe w c conn rest mod hjob hc hmod =>
    obtain ⟨hw, hne, hst⟩ := h.ofJob hc (by rw [hjob]; rfl)
    rw [hjob, Job.stage_unsubscribe] at hst
    subst hw
    obtain ⟨hio, hconns, l, hl, hsub, hbook⟩ := hst
    refine h.own hc rfl hne (OwnStep.still h s.conns _ hc hne
      (fun d hd => by rw [hjob] at hd; cases hd; rfl) (fun d hd => by cases hd; rfl) (fun _ _ => rfl)
      (fun fd hfd m => ?_) (bookErase_noEmpty h.noEmpty) ?_)
    · -- entries of other numbers stay
      rw [mem_bookErase]
      exact ⟨fun hand => hand.1, fun hb => ⟨hb, fun heq => hfd heq.1⟩⟩
    rw [Job.stage_unsubscribe]
    refine ⟨(congrFun (setJob_ioEvs _) _).trans hio, hconns, l, hl,
      (Finset.erase_subset mod rest).trans hsub, fun m => ?_⟩
    refine mem_bookErase.trans ?_
    show (s.Booked _ m ∧ _) ↔ _
    rw [hbook m, Finset.mem_erase]
    simp [and_comm]
  | @cleared w c hjob =>
    obtain ⟨conn, hc, hw, hne⟩ := h.job w c (by rw [hjob]; rfl)
    obtain ⟨-, -, hst⟩ := h.ofJob hc (by rw [hjob]; rfl)
    rw [hjob, Job.stage_unsubscribe] at hst
    subst hw
    obtain ⟨hio, -, l, hl, -, hbook⟩ := hst
    refine h.own hc rfl hne (OwnStep.quiet h hc hne (fun d hd => by rw [hjob] at hd; cases hd; rfl)
      (fun d hd => by cases hd; rfl) rfl rfl ?_)
    rw [Job.stage_decreaseConn]
    refine ⟨rfl, ?_, fun mod hb => Finset.notMem_empty mod ((hbook mod).1 hb)⟩
    show ((setJob _ _ _).workers conn.loop).ioEvs _ = _
    rw [setJob_ioEvs]
    exact hio
  | @decreaseConn w c conn hjob hc =>
    obtain ⟨hw, hne, hst⟩ := h.ofJob hc (by rw [hjob]; rfl)
    rw [hjob, Job.stage_decreaseConn] at hst
    subst hw
    obtain ⟨hparam, hio, hbook⟩ := hst
    refine h.own hc rfl hne (OwnStep.still h _ s.bookList hc hne
      (fun d hd => by rw [hjob] at hd; cases hd; rfl) (fun d hd => by cases hd; rfl)
      (fun fd hfd => Function.update_of_ne hfd ..) (fun _ _ _ => Iff.rfl) h.noEmpty ?_)
    rw [Job.stage_delIoEvent]
    exact ⟨hparam, (congrFun (setJob_ioEvs _) _).trans hio, hbook⟩
  | @delIoEvent w c conn hjob hc =>
    obtain ⟨hw, hne, hst⟩ := h.ofJob hc (by rw [hjob]; rfl)
    rw [hjob, Job.stage_delIoEvent] at hst
    subst hw
    obtain ⟨hparam, -, hbook⟩ := hst
    refine h.own hc rfl hne (OwnStep.callback h hc (fun d hd => by rw [hjob] at hd; cases hd; rfl)
      (fun d hd => by cases hd; rfl) (fun d hd => by cases hd) ?_)
    rw [Job.stage_close]
    refine ⟨hparam, ?_, hbook⟩
    rw [modifyWorker_self]
    exact Function.update_self ..
  | close w hjob hc => exact wired_close h hjob hc
  | @makePublishMap w fds hjob hfds =>
    have hsame : SameWiring s (s.setJob w (.pushNext (needPublish fds s.pushList))) :=
      SameWiring.ofJob (fun d => by rw [hjob]; rfl) fun d hd => by cases hd
    exact h.same (hsame.shared _ _ _ _ _)
  | pushNext w hjob hmem => exact h.same (SameWiring.ofJob (fun d => by rw [hjob]; rfl) fun d hd => by cases hd)
  | pushHosts w hjob => exact h.same (SameWiring.ofJob (fun d => by rw [hjob]; rfl) fun d hd => by cases hd)
  | pushNull w hjob hwalk hc =>
    exact h.same (SameWiring.ofJob (fun d => by rw [hjob]; rfl) fun d hd => by cases hd)
  | @push w fd mod hosts map rest walk room c conn hjob hwalk hfd hc =>
    have hsame : SameWiring s (s.setJob w (.pushNext rest)) :=
      SameWiring.ofJob (fun d => by rw [hjob]; rfl) fun d hd => by cases hd
    refine h.same (hsame.sent fun b => ?_)
    cases room <;> exact ⟨rfl, rfl, rfl⟩
  | pushed w hjob =>
    refine h.same (SameWiring.ofWorker rfl rfl (fun _ => rfl) (fun c => ?_) fun c hc => by cases hc)
    rw [hjob]
    rfl
  | @sendTask i hi ok now db hs =>
    have hsame : SameWiring s (s.send ⟨i, hi⟩ .newTask) :=
      SameWiring.ofWorker rfl rfl (fun fd => by simp) (fun _ => rfl) fun _ => id
    exact h.same (hsame.shared _ _ _ _ _)
  | sentAll hi hs => exact h.same ((SameWiring.refl s).shared _ _ _ _ _)
  | publish hs hpc => exact h.same ((SameWiring.refl s).shared _ _ _ _ _)
  | swap hs hpc => exact h.same ((SameWiring.refl s).shared _ _ _ _ _)
  | statement hs hpc hswap hreload => exact h.same ((SameWiring.refl s).shared _ _ _ _ _)

theorem boot_wired (p : Process n) : Wired p p.boot where
  evfds := p.evfd_open
  nonneg := p.nonneg
  -- no object has been made, and nothing leads to one
  conn := fun c conn hc => by cases hc
  closed := fun c conn hc => by cases hc
  fds := fun c d conn conn' hc => by cases hc
  job := fun w c hj => by cases hj
  ioEvs := fun w fd c hio => by cases hio
  booked := by
    rintro fd mod ⟨fds, hb, -⟩
    cases hb
  noEmpty := fun mod hb => by cases hb
  queued := fun w fd hq => by cases hq
  queuedOnce := fun v w fd hq => by cases hq
  queueNodup := fun w fd => Nat.zero_le 1

/-! ## Where pushes go -/

theorem mem_needPublish {fds : Finset Fd} {push : Fd → Option (Finset UInt64)} :
    (fd, mod) ∈ needPublish fds push ↔ fd ∈ fds ∧ mod ∈ (push fd).getD ∅ := by
  unfold needPublish
  simp only [Finset.mem_biUnion, Finset.mem_image, Prod.mk.injEq]
  constructor
  · rintro ⟨fd', hfd, m, hm, rfl, rfl⟩
    exact ⟨hfd, hm⟩
  · rintro ⟨hfd, hm⟩
    exact ⟨fd, hfd, mod, hm, rfl, rfl⟩

theorem pushInsert_none {changes : Finset UInt64} {book : UInt64 → Option (Finset Fd)}
    {push : Fd → Option (Finset UInt64)} (h : ∀ mod fds, book mod = some fds → fd ∉ fds) :
    pushInsert changes book push fd = push fd := by
  unfold pushInsert
  rw [if_pos]
  rw [Finset.filter_eq_empty_iff]
  intro mod _ hmem
  rcases hb : book mod with _ | fds
  · rw [hb] at hmem
    exact absurd hmem (Finset.notMem_empty fd)
  · rw [hb] at hmem
    exact h mod fds hb hmem

theorem mem_pushInsert {changes : Finset UInt64} {book : UInt64 → Option (Finset Fd)}
    {push : Fd → Option (Finset UInt64)} :
    mod ∈ (pushInsert changes book push fd).getD ∅ ↔
      mod ∈ (push fd).getD ∅ ∨ (mod ∈ changes ∧ ∃ fds, book mod = some fds ∧ fd ∈ fds) := by
  have hbook : fd ∈ (book mod).getD ∅ ↔ ∃ fds, book mod = some fds ∧ fd ∈ fds := by
    cases book mod <;> simp
  unfold pushInsert
  dsimp only
  split
  · rename_i hempty
    rw [Finset.filter_eq_empty_iff] at hempty
    constructor
    · exact Or.inl
    · rintro (hmem | ⟨hc, hb⟩)
      · exact hmem
      · exact absurd (hbook.2 hb) (hempty hc)
  · rw [Option.getD_some, Finset.mem_union, Finset.mem_filter, hbook]

end DnsServer

/-- The descriptors and mods that a push has still to do. -/
def Job.pairs : Job → Finset (Fd × UInt64)
  | .pushNext rest => rest
  | .pushHosts fd mod rest => insert (fd, mod) rest
  | .push fd mod _ _ rest => insert (fd, mod) rest
  | _ => ∅

/-- A job that pushes is about no connection. -/
theorem Job.conn_of_pairs {j : Job} {x : Fd × UInt64} (h : x ∈ j.pairs) : j.conn = none := by
  revert h
  cases j <;> simp [Job.pairs, Job.conn]

namespace DnsServer

variable {n : ℕ} {p : Process n} {s s' : DnsServer n} {e : Event n} {v w : Fin n} {c d : ConnAddr}
  {conn conn' : DnsConn n} {fd : Fd} {mod : UInt64}

/-- A push goes to descriptors of connections of its own loop. -/
structure Aimed (p : Process n) (s : DnsServer n) : Prop where
  pushFds : ∀ fd, s.pushList fd ≠ none → ∀ w, fd ≠ p.evfd w
  targets : ∀ w fd mod, (fd, mod) ∈ (s.workers w).job.pairs → ∃ c, (s.workers w).ioEvs fd = some c

/-- A move of one worker. -/
theorem Aimed.ofWorker (h : Aimed p s) (w : Fin n) {k : DnsWorker}
    (hworkers : s'.workers = Function.update s.workers w k)
    (hpush : ∀ fd, s'.pushList fd ≠ none → s.pushList fd ≠ none)
    (hpairs : k.job.pairs ⊆ (s.workers w).job.pairs)
    (hio : k.job.pairs = ∅ ∨ k.ioEvs = (s.workers w).ioEvs) : Aimed p s' := by
  refine ⟨fun fd hfd => h.pushFds fd (hpush fd hfd), fun v fd mod hmem => ?_⟩
  rw [hworkers] at hmem ⊢
  by_cases hv : v = w
  · subst hv
    rw [Function.update_self] at hmem ⊢
    rcases hio with hempty | hio
    · rw [hempty] at hmem
      exact absurd hmem (Finset.notMem_empty _)
    · rw [hio]
      exact h.targets v fd mod (hpairs hmem)
  · rw [Function.update_of_ne hv] at hmem ⊢
    exact h.targets v fd mod hmem

/-- A worker goes on with its job, or with one that pushes nothing. -/
theorem Aimed.ofJob (h : Aimed p s) (w : Fin n) (j : Job)
    (hworkers : s'.workers = Function.update s.workers w { s.workers w with job := j })
    (hpush : s'.pushList = s.pushList) (hpairs : j.pairs ⊆ (s.workers w).job.pairs) : Aimed p s' :=
  h.ofWorker w hworkers (fun fd hfd => by rwa [hpush] at hfd) hpairs (Or.inr rfl)

theorem move_aimed (hw : Wired p s) (h : Aimed p s) (hm : Move p s e s') : Aimed p s' := by
  have hnone : ∀ {j : Job} {t : Finset (Fd × UInt64)}, j.pairs = ∅ → j.pairs ⊆ t :=
    fun hj => hj ▸ Finset.empty_subset _
  cases hm with
  | skip => exact h
  | accept w connfd h0 hnew =>
    exact h.ofWorker w rfl (fun _ => id) (Finset.Subset.refl _) (Or.inr rfl)
  | newTask w hjob hq => exact h.ofWorker w rfl (fun _ => id) (Finset.Subset.refl _) (Or.inr rfl)
  | newConn w hjob hq => exact h.ofWorker w rfl (fun _ => id) (hnone rfl) (Or.inr rfl)
  | known w hjob hio hc hl hk => exact h.ofJob w _ rfl rfl (hnone rfl)
  | unknown w hjob hio hc hl hk => exact h.ofJob w _ rfl rfl (hnone rfl)
  | hangUp w hjob hio hc hl => exact h.ofJob w _ rfl rfl (hnone rfl)
  | runTask w hjob hk => exact h.ofWorker w rfl (fun _ => id) (hnone rfl) (Or.inr rfl)
  | addIoEvent w hjob hc => exact h.ofWorker w rfl (fun _ => id) (hnone rfl) (Or.inl rfl)
  | increaseConn w hjob hc => exact h.ofJob w _ rfl rfl (hnone rfl)
  | subscribe w hjob hc => exact h.ofJob w _ rfl rfl (hnone rfl)
  | getHosts w hjob => exact h.ofJob w _ rfl rfl (hnone rfl)
  | respond w hjob hc hwalk => exact h.ofJob w _ rfl rfl (hnone rfl)
  | unsubscribe w hjob hc hmod => exact h.ofJob w _ rfl rfl (hnone rfl)
  | cleared w hjob => exact h.ofJob w _ rfl rfl (hnone rfl)
  | decreaseConn w hjob hc => exact h.ofJob w _ rfl rfl (hnone rfl)
  | delIoEvent w hjob hc => exact h.ofWorker w rfl (fun _ => id) (hnone rfl) (Or.inl rfl)
  | close w hjob hc => exact h.ofJob w _ rfl rfl (hnone rfl)
  | @makePublishMap w fds hjob hfds =>
    refine ⟨fun fd hfd => h.pushFds fd fun hnone => hfd ?_, fun v fd mod hmem => ?_⟩
    · show (if fd ∈ fds then none else s.pushList fd) = none
      split
      · rfl
      · exact hnone
    · by_cases hv : v = w
      · subst hv
        have hpairs : (fd, mod) ∈ needPublish fds s.pushList := by
          rw [setJob, modifyWorker_self] at hmem
          exact hmem
        obtain ⟨hpush, honline⟩ := hfds fd (mem_needPublish.1 hpairs).1
        rw [setJob_ioEvs]
        rcases honline with hev | hio
        · exact absurd hev (h.pushFds fd hpush v)
        · exact Option.ne_none_iff_exists'.1 hio
      · rw [setJob, modifyWorker_ne hv] at hmem ⊢
        exact h.targets v fd mod hmem
  | pushNext w hjob hmem =>
    refine h.ofJob w _ rfl rfl ?_
    rw [hjob]
    exact Finset.insert_subset hmem (Finset.erase_subset _ _)
  | pushHosts w hjob =>
    refine h.ofJob w _ rfl rfl ?_
    rw [hjob]
    exact Finset.Subset.refl _
  | pushNull w hjob hwalk hc =>
    refine h.ofJob w _ rfl rfl ?_
    rw [hjob]
    exact Finset.subset_insert _ _
  | push w hjob hwalk hfd hc =>
    refine h.ofJob w _ rfl rfl ?_
    rw [hjob]
    exact Finset.subset_insert _ _
  | pushed w hjob => exact h.ofWorker w rfl (fun _ => id) (hnone rfl) (Or.inr rfl)
  | sendTask hi hs => exact h.ofWorker ⟨_, hi⟩ rfl (fun _ => id) (Finset.Subset.refl _) (Or.inr rfl)
  | sentAll hi hs => exact ⟨h.pushFds, h.targets⟩
  | @publish changes ok now db hs hpc =>
    refine ⟨fun fd hfd w => ?_, h.targets⟩
    by_cases hold : s.pushList fd = none
    · have hb : ∃ mod, s.Booked fd mod := by
        by_contra hno
        refine hfd ((pushInsert_none fun mod fds hb hmem => hno ⟨mod, fds, hb, hmem⟩).trans hold)
      obtain ⟨mod, hb⟩ := hb
      obtain ⟨c, conn, hc, rfl, hne⟩ := hw.booked fd mod hb
      exact (hw.conn c conn hc hne).noEvent w
    · exact h.pushFds fd hold w
  | swap hs hpc => exact ⟨h.pushFds, h.targets⟩
  | statement hs hpc hswap hreload => exact ⟨h.pushFds, h.targets⟩

theorem boot_aimed (p : Process n) : Aimed p p.boot := by
  refine ⟨fun fd hfd => absurd rfl hfd, fun w fd mod hmem => ?_⟩
  exact absurd hmem (Finset.notMem_empty _)

/-- A push finds a connection that serves. -/
theorem target_serving (hw : Wired p s) (h : Aimed p s) (hmem : (fd, mod) ∈ (s.workers w).job.pairs) :
    ∃ c conn, s.heap.read c = some conn ∧ conn.loop = w ∧ conn.connfd = fd ∧ fd ≠ -1 ∧
      AtStage s c conn .serving := by
  obtain ⟨c, hio⟩ := h.targets w fd mod hmem
  obtain ⟨conn, hc, hloop, rfl, hne⟩ := hw.ioEvs w fd c hio
  refine ⟨c, conn, hc, hloop, rfl, hne, hw.serving hc hne fun hj => ?_⟩
  rw [hloop, Job.conn_of_pairs hmem] at hj
  cases hj

/-! ## No step fails -/

theorem withConn_some {f : DnsConn n → DnsServer n} (hc : s.heap.read c = some conn) :
    s.withConn c f = .ok (f conn) := by
  unfold withConn
  rw [hc]

theorem go_ok (h : Wired p s) (w : Fin n) : ∃ s', s.go w = .ok s' := by
  have hown : ∀ {c} {f : DnsConn n → DnsServer n}, (s.workers w).job.conn = some c →
      ∃ s', s.withConn c f = .ok s' := by
    intro c f hj
    obtain ⟨conn, hc, -⟩ := h.job w c hj
    exact ⟨_, withConn_some hc⟩
  unfold go
  split
  all_goals first
    | exact ⟨_, rfl⟩
    | (rename_i hjob; exact hown (by rw [hjob]; rfl))
    | (split <;> exact ⟨_, rfl⟩)

theorem begin_ok (h : Wired p s) (hjob : (s.workers w).job = .idle) : ∃ s', s.begin w e = .ok s' := by
  unfold begin
  split
  · exact ⟨_, rfl⟩
  · split
    · exact ⟨_, rfl⟩
    · rename_i c hio
      obtain ⟨conn, hc, -⟩ := h.ioEvs w _ c hio
      exact ⟨_, withConn_some hc⟩
  · split
    · exact ⟨_, rfl⟩
    · rename_i c hio
      obtain ⟨conn, hc, hloop, hfd, hne⟩ := h.ioEvs w _ c hio
      have hidle : (s.workers conn.loop).job.conn ≠ some c := by
        rw [hloop, hjob]
        exact fun heq => by cases heq
      obtain ⟨-, -, l, hl, -⟩ := h.serving hc (hfd ▸ hne) hidle
      simp only [hc, hl]
      exact ⟨_, rfl⟩
  · split <;> exact ⟨_, rfl⟩
  · exact ⟨_, rfl⟩

/-- **No pointer is followed into nothing.** -/
theorem step_ok (h : Wired p s) (ha : Aimed p s) (e : Event n) : ∃ s', s.step p e = .ok s' := by
  have hbegin : ∀ w, e.beginner = some w → ∃ s', s.step p e = .ok s' := by
    intro w hw
    rw [step_beginner hw]
    split
    · rename_i hjob
      exact begin_ok h hjob
    · exact ⟨_, rfl⟩
  cases e with
  | accept w connfd =>
    unfold step
    dsimp only
    split <;> exact ⟨_, rfl⟩
  | recv w => exact hbegin w rfl
  | request w fd req => exact hbegin w rfl
  | hangUp w fd => exact hbegin w rfl
  | runTask w => exact hbegin w rfl
  | go w => exact go_ok h w
  | respond w walk room =>
    unfold step respond
    dsimp only
    split
    · rename_i c req hosts map hjob
      obtain ⟨conn, hc, -⟩ := h.job w c (by rw [hjob]; rfl)
      split
      · exact ⟨_, withConn_some hc⟩
      · exact ⟨_, rfl⟩
    · exact ⟨_, rfl⟩
  | unsubscribe w mod =>
    unfold step unsubscribe
    dsimp only
    split
    · rename_i c rest hjob
      obtain ⟨conn, hc, -⟩ := h.job w c (by rw [hjob]; rfl)
      split
      · exact ⟨_, withConn_some hc⟩
      · exact ⟨_, rfl⟩
    · exact ⟨_, rfl⟩
  | makePublishMap w fds => exact ⟨_, rfl⟩
  | pushNext w fd mod => exact ⟨_, rfl⟩
  | push w walk room =>
    unfold step push
    dsimp only
    split
    · rename_i fd mod hosts map rest hjob
      have hmem : (fd, mod) ∈ (s.workers w).job.pairs := by
        rw [hjob]
        exact Finset.mem_insert_self ..
      obtain ⟨c, conn, hc, -, rfl, -, -, hconns, -⟩ := target_serving h ha hmem
      split
      · simp only [hconns]
        exact ⟨_, withConn_some hc⟩
      · exact ⟨_, rfl⟩
    · exact ⟨_, rfl⟩
  | checker ok now db => exact ⟨_, rfl⟩

/-- **No run fails**, and every state of it is wired. -/
theorem wired_always (p : Process n) (es : List (Event n)) :
    Runs.Always (step p) (fun _ s => Wired p s ∧ Aimed p s) p.boot es := by
  refine Runs.always_of_step ⟨boot_wired p, boot_aimed p⟩ ?_
  rintro pre e - s - ⟨hw, ha⟩
  obtain ⟨s', hs⟩ := step_ok hw ha e
  have hm := step_move hs
  exact ⟨s', hs, move_wired hw hm, move_aimed hw ha hm⟩

/-- **The two copies of the subscriptions agree** whenever no worker is in a constructor, in
`get_route` or in `clean_conn`, and `_book_list` never keeps an empty set. -/
theorem subscriptions_agree (p : Process n) (es : List (Event n)) :
    Runs.Always (step p) (fun _ s => (∀ w, (s.workers w).job.conn = none) →
      (∀ mod fd, (∃ fds, s.bookList mod = some fds ∧ fd ∈ fds) ↔
        ∃ c conn l, s.heap.read c = some conn ∧ conn.connfd = fd ∧ fd ∈ s.openFds ∧
          conn.param = some l ∧ mod ∈ l) ∧
      ∀ mod, s.bookList mod ≠ some ∅) p.boot es := by
  refine (wired_always p es).imp ?_
  rintro - s ⟨h, -⟩ hidle
  refine ⟨fun mod fd => ?_, h.noEmpty⟩
  have hserving : ∀ c conn, s.heap.read c = some conn → conn.connfd ≠ -1 → AtStage s c conn .serving :=
    fun c conn hc hne => h.serving hc hne fun hj => by rw [hidle] at hj; cases hj
  constructor
  · intro hb
    obtain ⟨c, conn, hc, rfl, hne⟩ := h.booked fd mod hb
    obtain ⟨-, -, l, hl, hbook⟩ := hserving c conn hc hne
    exact ⟨c, conn, l, hc, rfl, (h.conn c conn hc hne).isOpen, hl, (hbook mod).1 hb⟩
  · rintro ⟨c, conn, l, hc, rfl, hopen, hl, hmem⟩
    obtain ⟨-, -, l', hl', hbook⟩ := hserving c conn hc (ne_of_nonneg (h.nonneg _ hopen))
    rw [hl] at hl'
    cases hl'
    exact (hbook mod).2 hmem

end DnsServer

end LbRpc
