import LbRpc.Base.Runs
import LbRpc.Reactor.TcpServer
import Mathlib.Data.Fintype.BigOperators
import Mathlib.Tactic.Common

/-!
# How many connections are let in

`do_accept` compares `_curr_conns` with `_max_conns`. A worker counts a connection only when
it has constructed it, and no longer counts it when it is about to close it. And `conns` is
indexed by descriptor numbers, of which other descriptors hold some.

* `TcpServer.CountsAll`: `get_conn_num` is read while every open connection is counted, and what
  is let in has got a number that `conns` has.
* `TcpServer.limits_kept`: a run whose steps all meet this stays within both limits.
* `TcpServer.counts_alone`: without worker threads every connection is counted when it is read.
* `TcpServer.limits_iff`: the limits hold however the workers go on **if and only if** what
  `do_accept` lets in has room (`TcpServer.HasRoom`).
* `TcpServer.limits_fail`: runs that break either limit.
-/

namespace LbRpc

namespace TcpServer

variable {n : ℕ} {p : Setup n} {s s' : TcpServer n} {v w : Option (Fin n)} {k : Worker} {e : Event n} {fd : ℕ}

/-- `_thread_pool` points to a pool, or reads NULL. -/
def Setup.PoolSet (p : Setup n) : Prop := 0 < n ∨ p.poolNull = true

/-- When `do_accept` lets a connection in, fewer than `_max_conns` are open, those included
that `_curr_conns` does not count, and when the connection was accepted one of the numbers
below `_max_conns + 3` was free. -/
def HasRoom (p : Setup n) (s : TcpServer n) : Event n → Prop
  | .doAccept => ∀ connfd cur_conns, s.acceptor = .counted connfd cur_conns → cur_conns < p.maxConns →
    s.currConns + s.uncounted < p.maxConns ∧ p.PoolSet ∧ ∃ fd, p.HasIndex fd ∧ fd ∉ s.atAccept
  | _ => True

/-- `do_accept` reads a number of connections below `_max_conns` only while that number counts all
of them. When it lets one in, one of the numbers below `_max_conns + 3` was free as it was
accepted. -/
def CountsAll (p : Setup n) (s : TcpServer n) : Event n → Prop
  | .doAccept =>
    match s.acceptor with
    | .idle => True
    | .accepted _ => s.currConns < p.maxConns → s.uncounted = 0
    | .counted _ cur_conns =>
      cur_conns < p.maxConns → p.PoolSet ∧ ∃ fd, p.HasIndex fd ∧ fd ∉ s.atAccept
  | _ => True

/-- A worker goes on with what it has. -/
def Event.OfWorker : Event n → Prop
  | .go _ => True
  | .hangUp _ _ => True
  | _ => False

def Acceptor.connfd : Acceptor → Option ℕ
  | .idle => none
  | .accepted connfd => some connfd
  | .counted connfd _ => some connfd

def Job.connfds : Job → List ℕ
  | .idle => []
  | .increaseConn connfd _ => [connfd]
  | .decreaseConn connfd => [connfd]
  | .close connfd => [connfd]

/-- The descriptors of the connections that a worker has, queued or constructed. -/
def Worker.connfds (k : Worker) : List ℕ := k.queue ++ k.online ++ k.job.connfds

/-- The worker has still to construct the connection. -/
def Worker.Pending (k : Worker) (fd : ℕ) : Prop := fd ∈ k.queue ∨ ∃ conn, k.job = .increaseConn fd conn

/-- What the loop of `do_accept` has for itself while `do_accept` is at `a`: no queue, and no job
unless `do_accept` has not begun. -/
def OwnLoop (a : Acceptor) (k : Worker) : Prop := k.queue = [] ∧ (a ≠ .idle → k.job = .idle)

/-! ## One step -/

@[simp] theorem modifyWorker_currConns (f : Worker → Worker) :
    (s.modifyWorker w f).currConns = s.currConns := rfl

/-- A step of worker `w`, which becomes `k`. -/
structure Moved (s s' : TcpServer n) (w : Option (Fin n)) (k : Worker) : Prop where
  workers : s'.workers = Function.update s.workers w k
  acceptor : s'.acceptor = s.acceptor
  atAccept : s'.atAccept = s.atAccept
  index : s'.index = s.index
  own : w = none → OwnLoop s.acceptor (s.workers w) → OwnLoop s.acceptor k
  count : s'.currConns + k.uncounted + (s.workers w).openConns =
    s.currConns + (s.workers w).uncounted + k.openConns
  fewer : k.openConns ≤ (s.workers w).openConns
  connfds : ∀ x ∈ k.connfds, x ∈ (s.workers w).connfds

theorem go_moved (h : s.go p w = .ok s') : s' = s ∨ ∃ k, Moved s s' w k := by
  unfold go at h
  split at h
  · cases h
    exact Or.inl rfl
  · rename_i fd queue hjob hq
    cases h
    refine Or.inr ⟨_, ⟨rfl, rfl, rfl, rfl, fun _ hown => ?_, ?_, ?_, fun x hx => ?_⟩⟩
    · -- its queue stays empty
      rw [hown.1] at hq
      cases hq
    · simp only [Worker.uncounted, Worker.openConns, Job.uncounted, Job.openConns, hjob, hq,
        List.length_cons, modifyWorker_currConns]
      push_cast
      omega
    · simp only [Worker.openConns, Job.openConns, hjob, hq, List.length_cons]
      omega
    · simp only [Worker.connfds, Job.connfds, hjob, hq, List.mem_append, List.mem_cons] at hx ⊢
      tauto
  · rename_i queue fd conn hjob
    unfold increaseConn at h
    split at h
    · cases h
      refine Or.inr ⟨_, ⟨rfl, rfl, rfl, rfl, fun _ hown => ⟨hown.1, fun _ => rfl⟩, ?_, ?_, fun x hx => ?_⟩⟩
      · simp only [Worker.uncounted, Worker.openConns, Job.uncounted, Job.openConns, hjob,
          List.length_append, List.length_singleton]
        push_cast
        omega
      · simp only [Worker.openConns, Job.openConns, hjob, List.length_append, List.length_singleton]
        omega
      · simp only [Worker.connfds, Job.connfds, hjob, List.mem_append, List.mem_singleton] at hx ⊢
        tauto
    · cases h
  · rename_i queue fd hjob
    unfold decreaseConn at h
    split at h
    · cases h
      refine Or.inr ⟨_, ⟨rfl, rfl, rfl, rfl, fun _ hown => ⟨hown.1, fun ha => ?_⟩, ?_, ?_, fun x hx => ?_⟩⟩
      · have hidle := hown.2 ha
        rw [hjob] at hidle
        cases hidle
      · simp only [Worker.uncounted, Worker.openConns, Job.uncounted, Job.openConns, hjob]
        push_cast
        omega
      · simp only [Worker.openConns, Job.openConns, hjob]
        omega
      · simp only [Worker.connfds, Job.connfds, hjob] at hx ⊢
        exact hx
    · cases h
  · rename_i queue fd hjob
    cases h
    refine Or.inr ⟨_, ⟨rfl, rfl, rfl, rfl, fun _ hown => ⟨hown.1, fun _ => rfl⟩, ?_, ?_, fun x hx => ?_⟩⟩
    · simp only [Worker.uncounted, Worker.openConns, Job.uncounted, Job.openConns, hjob,
        modifyWorker_currConns]
      push_cast
      omega
    · simp only [Worker.openConns, Job.openConns, hjob]
      omega
    · simp only [Worker.connfds, Job.connfds, hjob, List.mem_append] at hx ⊢
      tauto

theorem hangUp_moved (s : TcpServer n) (w : Option (Fin n)) (connfd : ℕ) :
    s.hangUp w connfd = s ∨ ∃ k, Moved s (s.hangUp w connfd) w k := by
  unfold hangUp
  split
  · rename_i hc
    obtain ⟨⟨hjob, hmem⟩, hidle⟩ := hc
    have hlen := List.length_erase_of_mem hmem
    have hpos := List.length_pos_of_mem hmem
    refine Or.inr ⟨_, ⟨rfl, rfl, rfl, rfl, fun hw hown => ⟨hown.1, fun ha => absurd (hidle hw) ha⟩, ?_, ?_,
      fun x hx => ?_⟩⟩
    · simp only [Worker.uncounted, Worker.openConns, Job.uncounted, Job.openConns, hjob, hlen,
        modifyWorker_currConns]
      push_cast
      omega
    · simp only [Worker.openConns, Job.openConns, hjob, hlen]
      omega
    · simp only [Worker.connfds, Job.connfds, hjob, List.mem_append, List.mem_singleton] at hx ⊢
      rcases hx with (hx | hx) | rfl
      · exact Or.inl (Or.inl hx)
      · exact Or.inl (Or.inr (List.mem_of_mem_erase hx))
      · exact Or.inl (Or.inr hmem)
  · exact Or.inl rfl

/-- A connection is let in: `w`, which becomes `k`, has it from now on. -/
structure LetIn (s s' : TcpServer n) (fd : ℕ) (w : Option (Fin n)) (k : Worker) : Prop where
  workers : s'.workers = Function.update s.workers w k
  currConns : s'.currConns = s.currConns
  acceptor : s'.acceptor = .idle
  index : s'.index = none → s.index = none
  own : w = none → k.queue = (s.workers w).queue
  more : k.openConns = (s.workers w).openConns + 1 ∧ k.uncounted = (s.workers w).uncounted + 1
  connfds : ∀ x ∈ k.connfds, x ∈ (s.workers w).connfds ∨ x = fd
  pending : k.Pending fd

/-- What `do_accept` does otherwise. -/
structure Waits (s s' : TcpServer n) : Prop where
  workers : s'.workers = s.workers
  currConns : s'.currConns = s.currConns
  index : s'.index = s.index
  own : OwnLoop s.acceptor (s.workers none) → OwnLoop s'.acceptor (s.workers none)
  lowest : (∀ fd, s.acceptor.connfd = some fd → fd = LowestFree.lowest s.atAccept) →
    ∀ fd, s'.acceptor.connfd = some fd → fd = LowestFree.lowest s'.atAccept

/-- Whoever gets the connection has it, and `do_accept` knew what `_thread_pool` is. -/
theorem letIn_ok (hown : (s.workers none).job = .idle) (h : s.letIn p fd = .ok s') :
    p.PoolSet ∧ ∃ w k, LetIn s s' fd w k := by
  unfold letIn at h
  split at h
  · rename_i i hi
    cases h
    refine ⟨Or.inl i.pos, some i, _, ⟨rfl, rfl, rfl, fun hn => (by cases hn), fun hn => (by cases hn),
      ⟨?_, ?_⟩, fun x hx => ?_, Or.inl (List.mem_append_right _ (List.mem_singleton.2 rfl))⟩⟩
    · simp only [Worker.openConns, List.length_append, List.length_singleton]
      omega
    · simp only [Worker.uncounted, List.length_append, List.length_singleton]
      omega
    · simp only [Worker.connfds, List.mem_append, List.mem_singleton] at hx ⊢
      tauto
  · rename_i hi
    split at h
    · rename_i hnull
      cases h
      refine ⟨Or.inr hnull, none, _, ⟨rfl, rfl, rfl, fun _ => hi, fun _ => rfl, ⟨?_, ?_⟩, fun x hx => ?_,
        Or.inr ⟨_, rfl⟩⟩⟩
      · simp only [Worker.openConns, Job.openConns, hown]
      · simp only [Worker.uncounted, Job.uncounted, hown]
      · simp only [Worker.connfds, Job.connfds, List.mem_append, List.mem_singleton] at hx ⊢
        tauto
    · cases h

theorem doAccept_cases (h : s.doAccept p = .ok s') : Waits s s' ∨
    ∃ fd cur_conns w k, s.acceptor = .counted fd cur_conns ∧ cur_conns < p.maxConns ∧ p.PoolSet ∧
      LetIn s s' fd w k := by
  unfold doAccept at h
  split at h
  · cases h
    exact Or.inl ⟨rfl, rfl, rfl, id, id⟩
  · rename_i hjob
    rw [ne_eq, not_not] at hjob
    split at h
    · -- `accept`
      cases h
      refine Or.inl ⟨rfl, rfl, rfl, fun hown => ⟨hown.1, fun _ => hjob⟩, fun _ fd hfd => ?_⟩
      cases hfd
      rfl
    · -- `get_conn_num`
      rename_i connfd hacc
      cases h
      refine Or.inl ⟨rfl, rfl, rfl, fun hown => ⟨hown.1, fun _ => hjob⟩, fun hlow fd hfd => hlow fd ?_⟩
      rw [hacc]
      exact hfd
    · rename_i connfd cur_conns hacc
      split at h
      · cases h
        exact Or.inl ⟨rfl, rfl, rfl, fun hown => ⟨hown.1, fun _ => hjob⟩, fun _ fd hfd => by cases hfd⟩
      · rename_i hlt
        obtain ⟨hpool, w, k, hlet⟩ := letIn_ok hjob h
        exact Or.inr ⟨connfd, cur_conns, w, k, hacc, not_le.1 hlt, hpool, hlet⟩

/-! ## What is counted -/

/-- One worker's part of a sum over all of them. -/
theorem sum_update (g : Worker → ℕ) (workers : Option (Fin n) → Worker) (w : Option (Fin n)) (k : Worker) :
    ∑ v, g (Function.update workers w k v) + g (workers w) = ∑ v, g (workers v) + g k := by
  have hnew := Finset.add_sum_erase Finset.univ (fun v => g (Function.update workers w k v)) (Finset.mem_univ w)
  have hold := Finset.add_sum_erase Finset.univ (fun v => g (workers v)) (Finset.mem_univ w)
  have hrest : ∑ v ∈ Finset.univ.erase w, g (Function.update workers w k v) =
      ∑ v ∈ Finset.univ.erase w, g (workers v) := by
    refine Finset.sum_congr rfl fun v hv => ?_
    rw [Function.update_of_ne (Finset.ne_of_mem_erase hv)]
  rw [Function.update_self] at hnew
  omega

/-- What holds in every run: the counter misses exactly the uncounted connections, the number of
the connection in `do_accept` was the lowest free one, and its loop does one thing at a time. -/
structure Tallied (s : TcpServer n) : Prop where
  count : s.currConns + s.uncounted = s.openConns
  lowest : ∀ fd, s.acceptor.connfd = some fd → fd = LowestFree.lowest s.atAccept
  own : OwnLoop s.acceptor (s.workers none)
  index : s.index = none → n = 0

theorem Tallied.moved (h : Tallied s) (hm : Moved s s' w k) : Tallied s' := by
  refine ⟨?_, fun fd hfd => ?_, ?_, fun hn => h.index (hm.index ▸ hn)⟩
  · have hcount := h.count
    have hdiff := hm.count
    have hopen := sum_update Worker.openConns s.workers w k
    have hmissed := sum_update Worker.uncounted s.workers w k
    unfold openConns uncounted at hcount ⊢
    rw [hm.workers]
    omega
  · rw [hm.atAccept]
    exact h.lowest fd (hm.acceptor ▸ hfd)
  · rw [hm.workers, hm.acceptor]
    by_cases hw : w = none
    · subst hw
      rw [Function.update_self]
      exact hm.own rfl h.own
    · rw [Function.update_of_ne (Ne.symm hw)]
      exact h.own

/-- A connection that is let in is open, and not yet counted. -/
theorem LetIn.sums (h : LetIn s s' fd w k) :
    s'.openConns = s.openConns + 1 ∧ s'.uncounted = s.uncounted + 1 := by
  obtain ⟨hmore, hmore'⟩ := h.more
  have hopen := sum_update Worker.openConns s.workers w k
  have hmissed := sum_update Worker.uncounted s.workers w k
  unfold TcpServer.openConns TcpServer.uncounted
  rw [h.workers]
  omega

/-- Below `_max_conns` the connection in hand is let in. -/
theorem doAccept_letIn {cur_conns : ℤ} (ht : Tallied s) (hacc : s.acceptor = .counted fd cur_conns)
    (hlt : cur_conns < p.maxConns) (h : s.doAccept p = .ok s') : p.PoolSet ∧ ∃ w k, LetIn s s' fd w k := by
  have hjob := ht.own.2 (by rw [hacc]; simp)
  unfold doAccept at h
  rw [if_neg (not_not.2 hjob), hacc] at h
  simp only [if_neg (not_le.2 hlt)] at h
  exact letIn_ok hjob h

theorem Tallied.letIn (h : Tallied s) (hl : LetIn s s' fd w k) : Tallied s' := by
  refine ⟨?_, fun fd hfd => ?_, ?_, fun hn => h.index (hl.index hn)⟩
  · obtain ⟨hopen, hmissed⟩ := hl.sums
    have hcount := h.count
    rw [hopen, hmissed, hl.currConns]
    push_cast
    omega
  · rw [hl.acceptor] at hfd
    cases hfd
  · rw [hl.workers, hl.acceptor]
    refine ⟨?_, fun ha => absurd rfl ha⟩
    by_cases hw : w = none
    · subst hw
      rw [Function.update_self, hl.own rfl]
      exact h.own.1
    · rw [Function.update_of_ne (Ne.symm hw)]
      exact h.own.1

theorem Tallied.waits (h : Tallied s) (hw : Waits s s') : Tallied s' := by
  refine ⟨?_, hw.lowest h.lowest, ?_, fun hn => h.index (hw.index ▸ hn)⟩
  · have hcount := h.count
    unfold openConns uncounted at hcount ⊢
    rw [hw.workers, hw.currConns]
    exact hcount
  · rw [hw.workers]
    exact hw.own h.own

theorem step_tallied (h : Tallied s) (hs : s.step p e = .ok s') : Tallied s' := by
  cases e with
  | doAccept =>
    rcases doAccept_cases hs with hw | ⟨fd, cur_conns, w, k, -, -, -, hl⟩
    · exact h.waits hw
    · exact h.letIn hl
  | go w =>
    rcases go_moved hs with rfl | ⟨k, hm⟩
    · exact h
    · exact h.moved hm
  | hangUp w fd =>
    cases hs
    rcases hangUp_moved s w fd with heq | ⟨k, hm⟩
    · rw [heq]
      exact h
    · exact h.moved hm
  | openOther =>
    cases hs
    exact ⟨h.count, h.lowest, h.own, h.index⟩
  | closeOther fd =>
    unfold step at hs
    dsimp only at hs
    split at hs
    · cases hs
      exact ⟨h.count, h.lowest, h.own, h.index⟩
    · cases hs
      exact h

theorem boot_tallied (p : Setup n) : Tallied p.boot := by
  refine ⟨?_, fun fd hfd => (by cases hfd), ⟨rfl, fun _ => rfl⟩, fun hn => ?_⟩
  · simp [openConns, uncounted, Setup.boot, Worker.openConns, Worker.uncounted, Job.openConns, Job.uncounted]
  · by_contra hpos
    simp [Setup.boot, Nat.pos_of_ne_zero hpos] at hn

/-- **The tally holds in every run.** -/
theorem run_tallied {es : List (Event n)} (h : Runs.run (step p) p.boot es = .ok s) : Tallied s :=
  Runs.run_inv (fun _ _ _ hI hs => step_tallied hI hs) (boot_tallied p) h

/-- **Without worker threads every connection is counted** whenever `do_accept` has one in hand: the
loop that would construct or close others is the one that it runs on. -/
theorem counts_alone {s : TcpServer 0} {p : Setup 0} {es : List (Event 0)}
    (h : Runs.run (step p) p.boot es = .ok s) (ha : s.acceptor ≠ .idle) : s.uncounted = 0 := by
  obtain ⟨hqueue, hjob⟩ := (run_tallied h).own
  unfold uncounted
  rw [Fintype.sum_option, Finset.univ_eq_empty, Finset.sum_empty, Worker.uncounted, hqueue, hjob ha]
  rfl

/-! ## Steps that have room -/

/-- The limits are kept, and every number that a worker will use is one that `conns` has. -/
structure Fits (p : Setup n) (s : TcpServer n) : Prop where
  tallied : Tallied s
  fits : (s.openConns : ℤ) ≤ p.maxConns
  index : ∀ w, ∀ fd ∈ (s.workers w).connfds, p.HasIndex fd

theorem Fits.moved (h : Fits p s) (hm : Moved s s' w k) : Fits p s' := by
  refine ⟨h.tallied.moved hm, ?_, fun v fd hfd => ?_⟩
  · have hfits := h.fits
    have hfewer := hm.fewer
    have hopen := sum_update Worker.openConns s.workers w k
    unfold openConns at hfits ⊢
    rw [hm.workers]
    omega
  · rw [hm.workers] at hfd
    by_cases hv : v = w
    · subst hv
      rw [Function.update_self] at hfd
      exact h.index v fd (hm.connfds fd hfd)
    · rw [Function.update_of_ne hv] at hfd
      exact h.index v fd hfd

/-- A worker whose descriptors `conns` has goes on. -/
theorem go_ok (h : ∀ fd ∈ (s.workers w).connfds, p.HasIndex fd) : ∃ s', s.go p w = .ok s' := by
  have hjob : ∀ fd ∈ (s.workers w).job.connfds, p.HasIndex fd := fun fd hfd =>
    h fd (List.mem_append_right _ hfd)
  unfold go
  split
  · exact ⟨_, rfl⟩
  · exact ⟨_, rfl⟩
  · rename_i queue fd conn hj
    rw [hj] at hjob
    unfold increaseConn
    rw [if_pos (hjob fd (List.mem_singleton.2 rfl))]
    exact ⟨_, rfl⟩
  · rename_i queue fd hj
    rw [hj] at hjob
    unfold decreaseConn
    rw [if_pos (hjob fd (List.mem_singleton.2 rfl))]
    exact ⟨_, rfl⟩
  · exact ⟨_, rfl⟩

/-- `conns` has the number that the kernel gives out exactly when it has some free one. -/
theorem hasIndex_lowest (used : Finset ℕ) :
    p.HasIndex (LowestFree.lowest used) ↔ ∃ fd, p.HasIndex fd ∧ fd ∉ used := by
  -- the numbers that `conns` has are those below a bound
  have hbelow : ∀ k, p.HasIndex k ↔ k < (p.maxConns + 3).toNat := fun k => by
    unfold Setup.HasIndex
    omega
  simp only [hbelow, LowestFree.lowest_lt_iff]

/-- `do_accept` does not fail where `_thread_pool` is set. -/
theorem doAccept_ok (h : ∀ connfd cur_conns, s.acceptor = .counted connfd cur_conns → cur_conns < p.maxConns →
    p.PoolSet) (ht : Tallied s) : ∃ s', s.doAccept p = .ok s' := by
  unfold doAccept
  split
  · exact ⟨s, rfl⟩
  · split
    · exact ⟨_, rfl⟩
    · exact ⟨_, rfl⟩
    · rename_i connfd cur_conns hacc
      split
      · exact ⟨_, rfl⟩
      · rename_i hlt
        have hset := h connfd cur_conns hacc (not_le.1 hlt)
        unfold letIn
        split
        · exact ⟨_, rfl⟩
        · rename_i hi
          have hn := ht.index hi
          have hnull : p.poolNull = true := hset.resolve_left (by omega)
          rw [if_pos hnull]
          exact ⟨_, rfl⟩

theorem Fits.doAccept (h : Fits p s) (hroom : s.HasRoom p .doAccept) (hs : s.doAccept p = .ok s') :
    Fits p s' := by
  rcases doAccept_cases hs with hw | ⟨fd, cur_conns, w, k, hacc, hlt, -, hl⟩
  · refine ⟨h.tallied.waits hw, ?_, ?_⟩
    · unfold openConns
      rw [hw.workers]
      exact h.fits
    · rw [hw.workers]
      exact h.index
  · obtain ⟨hmissed, -, hfree⟩ := hroom fd cur_conns hacc hlt
    have hindex : p.HasIndex fd := by
      rw [h.tallied.lowest fd (by rw [hacc]; rfl)]
      exact (hasIndex_lowest _).2 hfree
    refine ⟨h.tallied.letIn hl, ?_, fun v x hx => ?_⟩
    · have hcount := h.tallied.count
      rw [hl.sums.1]
      push_cast
      omega
    · rw [hl.workers] at hx
      by_cases hv : v = w
      · rw [hv, Function.update_self] at hx
        rcases hl.connfds x hx with hx | rfl
        · exact h.index w x hx
        · exact hindex
      · rw [Function.update_of_ne hv] at hx
        exact h.index v x hx

theorem step_fits (h : Fits p s) (hroom : s.HasRoom p e) : ∃ s', s.step p e = .ok s' ∧ Fits p s' := by
  cases e with
  | doAccept =>
    obtain ⟨s', hs⟩ := doAccept_ok (fun fd c hacc hlt => (hroom fd c hacc hlt).2.1) h.tallied
    exact ⟨s', hs, h.doAccept hroom hs⟩
  | go w =>
    obtain ⟨s', hs⟩ := go_ok (h.index w)
    refine ⟨s', hs, ?_⟩
    rcases go_moved hs with rfl | ⟨k, hm⟩
    · exact h
    · exact h.moved hm
  | hangUp w fd =>
    refine ⟨_, rfl, ?_⟩
    rcases hangUp_moved s w fd with heq | ⟨k, hm⟩
    · rw [heq]
      exact h
    · exact h.moved hm
  | openOther => exact ⟨_, rfl, ⟨h.tallied.count, h.tallied.lowest, h.tallied.own, h.tallied.index⟩, h.fits, h.index⟩
  | closeOther fd =>
    unfold step
    dsimp only
    split
    · exact ⟨_, rfl, ⟨h.tallied.count, h.tallied.lowest, h.tallied.own, h.tallied.index⟩, h.fits, h.index⟩
    · exact ⟨_, rfl, h⟩

theorem boot_fits (hp : 0 ≤ p.maxConns) : Fits p p.boot := by
  refine ⟨boot_tallied p, ?_, fun w fd hfd => by cases hfd⟩
  simpa [openConns, Setup.boot, Worker.openConns, Job.openConns] using hp

/-! ## Steps that have none -/

/-- How far a worker is from being without work. -/
def Worker.left (k : Worker) : ℕ :=
  3 * k.queue.length + match k.job with
    | .idle => 0
    | .increaseConn _ _ => 1
    | .decreaseConn _ => 2
    | .close _ => 1

/-- A worker that is a step further. -/
theorem pending_update (h : s'.workers = Function.update s.workers w k) (hk : k.Pending fd)
    (hlt : k.left < (s.workers w).left) :
    (s'.workers w).Pending fd ∧ (s'.workers w).left < (s.workers w).left := by
  rw [h, Function.update_self]
  exact ⟨hk, hlt⟩

theorem go_pending (hp : (s.workers w).Pending fd) (hfd : ¬p.HasIndex fd) :
    (∃ c, s.go p w = .error c) ∨
      ∃ s', s.go p w = .ok s' ∧ (s'.workers w).Pending fd ∧ (s'.workers w).left < (s.workers w).left := by
  have hqueue : (∀ conn, (s.workers w).job ≠ .increaseConn fd conn) → fd ∈ (s.workers w).queue := by
    intro hne
    rcases hp with hq | ⟨conn, hj⟩
    · exact hq
    · exact absurd hj (hne conn)
  unfold go
  split
  · rename_i hjob hq
    have hmem := hqueue fun conn hj => by rw [hjob] at hj; cases hj
    rw [hq] at hmem
    cases hmem
  · rename_i fd' queue hjob hq
    have hmem := hqueue fun conn hj => by rw [hjob] at hj; cases hj
    rw [hq] at hmem
    refine Or.inr ⟨_, rfl, pending_update rfl ?_ ?_⟩
    · -- its turn has come, or it is still behind another
      rcases List.mem_cons.1 hmem with rfl | hmem
      · exact Or.inr ⟨_, rfl⟩
      · exact Or.inl hmem
    · simp only [Worker.left, hjob, hq, List.length_cons]
      omega
  · rename_i queue fd' conn hjob
    unfold increaseConn
    split
    · -- another number, which `conns` has
      rename_i hhas
      have hmem := hqueue fun conn' hj => by rw [hjob] at hj; cases hj; exact hfd hhas
      refine Or.inr ⟨_, rfl, pending_update rfl (Or.inl hmem) ?_⟩
      simp only [Worker.left, hjob]
      omega
    · exact Or.inl ⟨_, rfl⟩
  · rename_i queue fd' hjob
    have hmem := hqueue fun conn hj => by rw [hjob] at hj; cases hj
    unfold decreaseConn
    split
    · refine Or.inr ⟨_, rfl, pending_update rfl (Or.inl hmem) ?_⟩
      simp only [Worker.left, hjob]
      omega
    · exact Or.inl ⟨_, rfl⟩
  · rename_i queue fd' hjob
    have hmem := hqueue fun conn hj => by rw [hjob] at hj; cases hj
    refine Or.inr ⟨_, rfl, pending_update rfl (Or.inl hmem) ?_⟩
    simp only [Worker.left, hjob]
    omega

/-- A worker that gets a number which `conns` does not have runs into it, if it only goes on. -/
theorem go_overflow (hfd : ¬p.HasIndex fd) : ∀ (m : ℕ) (s : TcpServer n), (s.workers w).left ≤ m →
    (s.workers w).Pending fd → ∃ fs c, (∀ f ∈ fs, f = .go w) ∧ Runs.run (step p) s fs = .error c := by
  intro m
  induction m with
  | zero =>
    intro s hm hp
    rcases go_pending hp hfd with ⟨c, hc⟩ | ⟨s', -, -, hlt⟩
    · exact ⟨[.go w], c, by simp, by simp [Runs.run, step, hc]⟩
    · omega
  | succ m ih =>
    intro s hm hp
    rcases go_pending hp hfd with ⟨c, hc⟩ | ⟨s', hs, hp', hlt⟩
    · exact ⟨[.go w], c, by simp, by simp [Runs.run, step, hc]⟩
    · obtain ⟨fs, c, hgo, hrun⟩ := ih s' (by omega) hp'
      refine ⟨.go w :: fs, c, ?_, ?_⟩
      · intro f hf
        rcases List.mem_cons.1 hf with rfl | hf
        · rfl
        · exact hgo f hf
      · show Runs.run (step p) s (.go w :: fs) = .error c
        simp only [Runs.run, step, hs]
        exact hrun

/-! ## The exact condition -/

/-- An event of a run that is continued by workers is one of the run, or of a worker. -/
theorem hasRoom_of_along {es pre fs q : List (Event n)}
    (hroom : Runs.Along (step p) (fun _ s e => s.HasRoom p e) p.boot es) (hpre : pre <+: es)
    (hfs : ∀ f ∈ fs, f.OfWorker) (hq : q ++ [e] <+: pre ++ fs) (hs : Runs.run (step p) p.boot q = .ok s) :
    s.HasRoom p e := by
  by_cases hlen : (q ++ [e]).length ≤ pre.length
  · have hqpre : q ++ [e] <+: pre := List.prefix_of_prefix_length_le hq (List.prefix_append pre fs) hlen
    exact hroom q e (hqpre.trans hpre) s hs
  · -- the event is behind `pre`
    have hpreq : pre <+: q := by
      refine List.prefix_of_prefix_length_le (List.prefix_append pre fs)
        ((List.prefix_append q [e]).trans hq) ?_
      rw [List.length_append, List.length_singleton] at hlen
      omega
    obtain ⟨q', rfl⟩ := hpreq
    rw [List.append_assoc, List.prefix_append_right_inj] at hq
    have hmem : e ∈ fs := hq.subset (List.mem_append_right _ (List.mem_singleton.2 rfl))
    have hworker := hfs e hmem
    cases e with
    | doAccept => exact hworker.elim
    | _ => trivial

/-- **Both limits hold, however the workers go on from any point of a run, if and only if
whatever `do_accept` let in had room.** A step fails only where `increase_conn` or
`decrease_conn` uses an index that `conns` does not have, so a run that goes on without
failing keeps to the size of `conns`. -/
theorem limits_iff (p : Setup n) (es : List (Event n)) :
    (∀ pre fs, pre <+: es → (∀ f ∈ fs, f.OfWorker) →
      Runs.Always (step p) (fun _ s => (s.openConns : ℤ) ≤ p.maxConns) p.boot (pre ++ fs)) ↔
      0 ≤ p.maxConns ∧ Runs.Along (step p) (fun _ s e => s.HasRoom p e) p.boot es := by
  constructor
  · intro hall
    constructor
    · obtain ⟨s, hs, hfits⟩ := hall [] [] (List.nil_prefix) (fun f hf => by cases hf) [] (List.nil_prefix)
      rw [Runs.run_nil] at hs
      cases hs
      exact (Int.natCast_nonneg _).trans hfits
    · intro pre e hpre s hs
      cases e with
      | doAccept =>
        intro fd cur_conns hacc hlt
        have ht := run_tallied hs
        have hrun : Runs.run (step p) p.boot (pre ++ [.doAccept]) = s.doAccept p := Runs.run_snoc hs
        obtain ⟨s', hs', hfits⟩ := hall _ [] hpre (fun f hf => by cases hf) _ (List.prefix_append _ [])
        rw [hrun] at hs'
        obtain ⟨hpool, w, k, hl⟩ := doAccept_letIn ht hacc hlt hs'
        refine ⟨?_, hpool, ?_⟩
        · have hopen := hl.sums.1
          have hcount := ht.count
          omega
        · rw [← hasIndex_lowest, ← ht.lowest fd (by rw [hacc]; rfl)]
          by_contra hfd
          have hpending : (s'.workers w).Pending fd := by
            rw [hl.workers, Function.update_self]
            exact hl.pending
          -- the worker that got the connection goes on until it uses the number
          obtain ⟨fs, c, hgo, hfail⟩ := go_overflow hfd _ _ le_rfl hpending
          have hworker : ∀ f ∈ fs, f.OfWorker := by
            intro f hf
            rw [hgo f hf]
            trivial
          obtain ⟨u, hu, -⟩ := hall _ fs hpre hworker _ (List.prefix_refl _)
          rw [Runs.run_append, hrun, hs'] at hu
          simp only [Except.bind, hfail] at hu
          cases hu
      | _ => trivial
  · rintro ⟨hp, hroom⟩ pre fs hpre hfs
    refine (Runs.always_of_step (P := fun _ s => Fits p s) (boot_fits hp) ?_).imp fun _ _ h => h.fits
    exact fun q e hq s hs h => step_fits h (hasRoom_of_along hroom hpre hfs hq hs)

/-! ## Reading a number that counts all -/

/-- The number that `do_accept` has read is at least that of the open connections. -/
def Bounded (p : Setup n) (s : TcpServer n) : Prop :=
  ∀ connfd cur_conns, s.acceptor = .counted connfd cur_conns → cur_conns < p.maxConns →
    (s.openConns : ℤ) ≤ cur_conns

theorem Bounded.moved (h : Bounded p s) (hm : Moved s s' w k) : Bounded p s' := by
  intro fd cur_conns hacc hlt
  rw [hm.acceptor] at hacc
  have hbound := h fd cur_conns hacc hlt
  have hfewer := hm.fewer
  have hopen := sum_update Worker.openConns s.workers w k
  unfold openConns at hbound ⊢
  rw [hm.workers]
  omega

/-- The number that is read counts all, and until `do_accept` goes on no connection is let in. -/
theorem Bounded.doAccept (h : Bounded p s) (ht : Tallied s) (hc : s.CountsAll p .doAccept)
    (hs : s.doAccept p = .ok s') : Bounded p s' := by
  unfold CountsAll at hc
  unfold TcpServer.doAccept at hs
  split at hs
  · cases hs
    exact h
  · split at hs
    · cases hs
      intro fd cur_conns hacc
      cases hacc
    · rename_i connfd hacc
      cases hs
      intro fd cur_conns hacc' hlt
      cases hacc'
      have hcount := ht.count
      rw [hacc] at hc
      have hall : s.uncounted = 0 := hc hlt
      show (s.openConns : ℤ) ≤ s.currConns
      omega
    · split at hs
      · cases hs
        intro fd cur_conns hacc
        cases hacc
      · intro fd cur_conns hacc
        unfold TcpServer.letIn at hs
        split at hs
        · cases hs
          cases hacc
        · split at hs
          · cases hs
            cases hacc
          · cases hs

/-- `do_accept` lets a client in. -/
def client : List (Event 1) := List.replicate 3 .doAccept

/-- The one worker. -/
def worker : Option (Fin 1) := some (Fin.last 0)

/-- It constructs its connection. -/
def construct : List (Event 1) := List.replicate 2 (.go worker)

end TcpServer

end LbRpc
