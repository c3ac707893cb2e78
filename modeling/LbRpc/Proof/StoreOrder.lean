import LbRpc.Base.LastWrite
import LbRpc.Reporter.StoreThread
import Mathlib.Tactic.Common

/-!
# Which report a row shows

Each store thread writes its own reports in their order, but no thread waits for another.
So a row shows the last report of one thread, and any of the threads can come last.

* `Reporter.dealt`: the reports that are sent to a thread.
* `Reporter.Tally`, `run_tally`: what a thread has written and has still to write is what it
  was sent, and the table is what the log leaves.
* `Reporter.rows_of_one_thread`: the rows once all threads are idle.
* `Reporter.last_report_overtaken`: an older report can stay.
-/

namespace LbRpc

namespace Reporter

variable {n : ℕ} {s : Reporter n} {t u : Fin n} {reqs : List Lbrss.ReportStatusRequest}
  {key : CallStatusKey}

/-- The reports at the positions `t`, `t + n`, `t + 2n`, …: the ones that thread `t` is sent. -/
def dealt (n t : ℕ) (reqs : List Lbrss.ReportStatusRequest) : List Lbrss.ReportStatusRequest :=
  (reqs.zipIdx.filter fun x => x.2 % n = t).map Prod.fst

/-- What a report says of a host: its last result for it. -/
def mention (key : CallStatusKey) (req : Lbrss.ReportStatusRequest) : Option CallStatus :=
  WriteLog.last (store req) key

/-- What the last report that mentions the host says of it. -/
def lastMention (key : CallStatusKey) (reqs : List Lbrss.ReportStatusRequest) : Option CallStatus :=
  reqs.reverse.findSome? (mention key)

/-- What a thread has still to write. -/
def rest (s : Reporter n) (t : Fin n) : List Upsert :=
  (s.threads t).statements ++ (s.threads t).reportMsgs.flatMap store ++ (s.threads t).queue.flatMap store

theorem last_stream : WriteLog.last (reqs.flatMap store) key = lastMention key reqs :=
  WriteLog.last_flatMap store reqs key

theorem dealt_concat (n t : ℕ) (req : Lbrss.ReportStatusRequest) :
    dealt n t (reqs ++ [req]) = if reqs.length % n = t then dealt n t reqs ++ [req] else dealt n t reqs := by
  unfold dealt
  rw [List.zipIdx_append, List.filter_append, List.map_append]
  by_cases h : reqs.length % n = t <;> simp [h]

theorem rest_of_idle (h : s.Idle t) : s.rest t = [] := by
  unfold rest
  rw [h]
  rfl

/-! ## One step -/

theorem modifyThread_self (f : StoreThread → StoreThread) :
    (s.modifyThread t f).threads t = f (s.threads t) :=
  Function.update_self ..

theorem modifyThread_ne (h : u ≠ t) (f : StoreThread → StoreThread) :
    (s.modifyThread t f).threads u = s.threads u :=
  Function.update_of_ne h ..

theorem go_recv (hst : (s.threads t).statements = []) (hms : (s.threads t).reportMsgs = []) :
    s.go t true = s.modifyThread t fun k => { k with queue := [], reportMsgs := k.queue } := by
  unfold go
  rw [hst, hms]

theorem go_next {msg : Lbrss.ReportStatusRequest} {msgs : List Lbrss.ReportStatusRequest}
    (hst : (s.threads t).statements = []) (hms : (s.threads t).reportMsgs = msg :: msgs) :
    s.go t true = s.modifyThread t fun k => { k with reportMsgs := msgs, statements := store msg } := by
  unfold go
  rw [hst, hms]

theorem go_statement {u : Upsert} {rest : List Upsert} (hst : (s.threads t).statements = u :: rest) :
    s.go t true = { s.modifyThread t fun k => { k with statements := rest } with
      table := u.query s.table, log := s.log ++ [(t, u)] } := by
  unfold go
  rw [hst]
  rfl

/-- What the next step of a thread does: it writes the first of what it has to write, or
nothing. -/
structure Goes (s s' : Reporter n) (t : Fin n) (written : List Upsert) : Prop where
  index : s'.index = s.index
  log : s'.log = s.log ++ written.map fun u => (t, u)
  table : s'.table = written.foldl (fun table u => u.query table) s.table
  rest : s.rest t = written ++ s'.rest t
  others : ∀ u, u ≠ t → s'.threads u = s.threads u
  single : written.length ≤ 1

/-- A step that only moves reports on. -/
theorem Goes.ofMove {f : StoreThread → StoreThread} (hrest : (s.modifyThread t f).rest t = s.rest t) :
    Goes s (s.modifyThread t f) t [] :=
  ⟨rfl, (List.append_nil _).symm, rfl, hrest.symm, fun _ hu => modifyThread_ne hu f, Nat.zero_le 1⟩

/-- How far a thread is from being idle: a report has to be received, taken out and
written. -/
def work (s : Reporter n) (t : Fin n) : ℕ :=
  (s.rest t).length + (s.threads t).reportMsgs.length + 2 * (s.threads t).queue.length

theorem go_goes (s : Reporter n) (t : Fin n) :
    ∃ written, Goes s (s.go t true) t written ∧ (s.Idle t ∨ (s.go t true).work t < s.work t) := by
  rcases hst : (s.threads t).statements with _ | ⟨u, rest⟩
  · rcases hms : (s.threads t).reportMsgs with _ | ⟨msg, msgs⟩
    · -- nothing at hand: `recv` takes the whole queue, which may be empty
      have hrest : (s.go t true).rest t = s.rest t := by
        unfold Reporter.rest
        rw [go_recv hst hms, modifyThread_self]
        simp [hst, hms]
      rw [go_recv hst hms] at hrest ⊢
      refine ⟨[], .ofMove hrest, ?_⟩
      by_cases hq : (s.threads t).queue = []
      · left
        unfold Idle
        rcases hk : s.threads t with ⟨queue, msgs, statements⟩
        rw [hk] at hst hms hq
        cases hst
        cases hms
        cases hq
        rfl
      · right
        have hlen := List.length_pos_iff.2 hq
        unfold work
        rw [hrest, modifyThread_self, hms]
        simp only [List.length_nil]
        omega
    · -- the next report becomes its statements
      have hrest : (s.go t true).rest t = s.rest t := by
        unfold Reporter.rest
        rw [go_next hst hms, modifyThread_self]
        simp [hst, hms]
      rw [go_next hst hms] at hrest ⊢
      refine ⟨[], .ofMove hrest, Or.inr ?_⟩
      unfold work
      rw [hrest, modifyThread_self, hms]
      simp only [List.length_cons]
      omega
  · -- a statement is executed
    have hthread : (s.go t true).threads t = { s.threads t with statements := rest } := by
      rw [go_statement hst]
      exact Function.update_self ..
    have hrest : s.rest t = u :: (s.go t true).rest t := by
      unfold Reporter.rest
      rw [hthread, hst]
      rfl
    have hwork : (s.go t true).work t < s.work t := by
      unfold work
      rw [hrest, hthread]
      simp only [List.length_cons]
      omega
    rw [go_statement hst] at hrest hwork ⊢
    exact ⟨[u], ⟨rfl, rfl, rfl, hrest, fun v hv => Function.update_of_ne hv .., le_refl 1⟩, Or.inr hwork⟩

/-! ## Every run -/

/-- A thread has written, or has still to write, exactly the reports it was sent, in their
order, and the table is what the log leaves. -/
structure Tally (table : CallStatusTable) (reqs : List Lbrss.ReportStatusRequest) (s : Reporter n) :
    Prop where
  index : s.index.val = reqs.length % n
  stream : ∀ t : Fin n, WriteLog.ofWriter t s.log ++ s.rest t = (dealt n t reqs).flatMap store
  rows : ∀ key, s.table key = (WriteLog.last (s.log.map Prod.snd) key).or (table key)

theorem boot_tally (h : 0 < n) (table : CallStatusTable) : Tally table [] (boot h table) :=
  ⟨(Nat.zero_mod n).symm, fun _ => rfl, fun _ => rfl⟩

theorem Tally.report {table : CallStatusTable} (h : Tally table reqs s) (req : Lbrss.ReportStatusRequest) :
    Tally table (reqs ++ [req]) (s.report req) := by
  refine ⟨?_, fun t => ?_, h.rows⟩
  · rw [List.length_append]
    exact RoundRobin.next_val h.index
  · rw [dealt_concat]
    by_cases ht : t = s.index
    · have hrest : (s.report req).rest t = s.rest t ++ store req := by
        have hthread : (s.report req).threads t =
            { s.threads t with queue := (s.threads t).queue ++ [req] } := by
          rw [ht]
          exact Function.update_self ..
        unfold rest
        rw [hthread]
        simp
      rw [if_pos (by rw [← h.index, ht]), List.flatMap_append, ← h.stream t, hrest, List.append_assoc]
      show WriteLog.ofWriter t s.log ++ _ = _
      simp
    · have hrest : (s.report req).rest t = s.rest t := by
        have hthread : (s.report req).threads t = s.threads t := Function.update_of_ne ht ..
        unfold rest
        rw [hthread]
      rw [if_neg (fun heq => ht (Fin.ext (by rw [h.index, heq]))), hrest]
      exact h.stream t

/-- A thread writes what comes first among what it has to write. -/
theorem Tally.goes {table : CallStatusTable} {s' : Reporter n} {written : List Upsert}
    (h : Tally table reqs s) (hg : Goes s s' t written) : Tally table reqs s' := by
  refine ⟨hg.index ▸ h.index, fun v => ?_, fun key => ?_⟩
  · rw [← h.stream v, hg.log, WriteLog.ofWriter_append]
    by_cases hv : v = t
    · subst hv
      rw [hg.rest, WriteLog.ofWriter_map_self, List.append_assoc]
    · have hrest : s'.rest v = s.rest v := by
        unfold rest
        rw [hg.others v hv]
      rw [hrest, WriteLog.ofWriter_map_ne (Ne.symm hv), List.append_nil]
  · have hsnd : (written.map fun u => (t, u)).map Prod.snd = written := by
      rw [List.map_map]
      exact List.map_id written
    rw [hg.table, hg.log, List.map_append, hsnd, WriteLog.last_append, Option.or_assoc, ← h.rows]
    rcases written with _ | ⟨u, _ | ⟨v, l⟩⟩
    · rfl
    · -- the statement written last decides its row and no other
      rw [WriteLog.last_singleton]
      show Function.update s.table u.1 (some u.2) key = _
      by_cases hk : u.1 = key
      · rw [if_pos hk, ← hk, Function.update_self]
        rfl
      · rw [if_neg hk, Function.update_of_ne (Ne.symm hk)]
        rfl
    · have hlen := hg.single
      simp only [List.length_cons] at hlen
      omega

/-- No statement fails. -/
def Succeeds (es : List (Event n)) : Prop := ∀ t, .go t false ∉ es

theorem requests_append (es fs : List (Event n)) : requests (es ++ fs) = requests es ++ requests fs :=
  List.filterMap_append

theorem run_concat (h : 0 < n) (table : CallStatusTable) (es : List (Event n)) (e : Event n) :
    run h table (es ++ [e]) = (run h table es).step e := by
  unfold run
  rw [List.foldl_append]
  rfl

/-- **The tally holds in every run** in which no statement fails. -/
theorem run_tally (h : 0 < n) (table : CallStatusTable) {es : List (Event n)} (hs : Succeeds es) :
    Tally table (requests es) (run h table es) := by
  induction es using List.reverseRecOn with
  | nil => exact boot_tally h table
  | append_singleton es e ih =>
    have hprev := ih fun t hmem => hs t (List.mem_append_left _ hmem)
    rw [run_concat, requests_append]
    cases e with
    | report req => exact hprev.report req
    | go t ok =>
      have hok : ok = true := by
        cases ok with
        | true => rfl
        | false => exact absurd (List.mem_append_right es (List.mem_singleton.2 rfl)) (hs t)
      subst hok
      obtain ⟨written, hg, -⟩ := go_goes (run h table es) t
      have hnone : requests [Event.go t true] = [] := rfl
      rw [hnone, List.append_nil]
      exact hprev.goes hg

/-! ## Which thread a report goes to -/

theorem lastMention_concat (req : Lbrss.ReportStatusRequest) :
    lastMention key (reqs ++ [req]) = (mention key req).or (lastMention key reqs) := by
  unfold lastMention
  rw [List.reverse_append, List.findSome?_append]
  simp

/-- Where one thread alone is sent the reports that mention a host, its last is the last of
all. -/
theorem lastMention_of_only (hn : 0 < n) (h : ∀ u, u ≠ t → lastMention key (dealt n u reqs) = none) :
    lastMention key reqs = lastMention key (dealt n t reqs) := by
  induction reqs using List.reverseRecOn with
  | nil => rfl
  | append_singleton reqs req ih =>
    have hprev : ∀ u, u ≠ t → lastMention key (dealt n u reqs) = none := by
      intro u hu
      have hlast := h u hu
      rw [dealt_concat] at hlast
      split at hlast
      · rw [lastMention_concat, Option.or_eq_none_iff] at hlast
        exact hlast.2
      · exact hlast
    rw [lastMention_concat, ih hprev, dealt_concat]
    split
    · rw [lastMention_concat]
    · rename_i hne
      -- the report goes to another thread, so it does not mention the host
      have hlast := h ⟨reqs.length % n, Nat.mod_lt _ hn⟩ fun heq => hne (congrArg Fin.val heq)
      rw [dealt_concat, if_pos rfl, lastMention_concat, Option.or_eq_none_iff] at hlast
      rw [hlast.1]
      rfl

/-! ## Any thread can come last -/

/-- Left alone, a thread becomes idle, and writes what it had to write. -/
theorem finish (t : Fin n) : ∀ (m : ℕ) (s : Reporter n), s.work t ≤ m →
    ∃ k s', (List.replicate k (.go t true)).foldl step s = s' ∧ s'.Idle t ∧
      s'.log = s.log ++ (s.rest t).map (fun u => (t, u)) ∧ ∀ u, u ≠ t → s'.threads u = s.threads u := by
  intro m
  induction m with
  | zero =>
    intro s hm
    obtain ⟨written, -, hidle | hlt⟩ := go_goes s t
    · exact ⟨0, s, rfl, hidle, by rw [rest_of_idle hidle]; simp, fun _ _ => rfl⟩
    · omega
  | succ m ih =>
    intro s hm
    obtain ⟨written, hg, hidle | hlt⟩ := go_goes s t
    · exact ⟨0, s, rfl, hidle, by rw [rest_of_idle hidle]; simp, fun _ _ => rfl⟩
    · obtain ⟨k, s', hrun, hidle, hlog, hothers⟩ := ih (s.go t true) (by omega)
      refine ⟨k + 1, s', ?_, hidle, ?_, fun u hu => ?_⟩
      · rw [List.replicate_succ, List.foldl_cons]
        exact hrun
      · rw [hlog, hg.log, hg.rest, List.map_append, List.append_assoc]
      · rw [hothers u hu, hg.others u hu]

/-- So do several threads, one after the other. -/
theorem finish_all (us : List (Fin n)) : ∀ s : Reporter n,
    ∃ (es : List (Event n)) (s' : Reporter n), es.foldl step s = s' ∧ (∀ e ∈ es, ∃ u, e = .go u true) ∧
      (∀ u ∈ us, s'.Idle u) ∧ ∀ u, u ∉ us → s'.threads u = s.threads u := by
  induction us with
  | nil =>
    intro s
    refine ⟨[], s, rfl, ?_, ?_, fun u hu => rfl⟩
    · intro e he
      cases he
    · intro u hu
      cases hu
  | cons u us ih =>
    intro s
    obtain ⟨k, s₁, hrun₁, hidle₁, -, hothers₁⟩ := finish u (s.work u) s le_rfl
    obtain ⟨es, s₂, hrun₂, hgo, hidle₂, hothers₂⟩ := ih s₁
    refine ⟨List.replicate k (.go u true) ++ es, s₂, ?_, fun e he => ?_, fun v hv => ?_, fun v hv => ?_⟩
    · rw [List.foldl_append, hrun₁, hrun₂]
    · rcases List.mem_append.1 he with he | he
      · exact ⟨u, List.eq_of_mem_replicate he⟩
      · exact hgo e he
    · by_cases hmem : v ∈ us
      · exact hidle₂ v hmem
      · have hvu : v = u := by simpa [hmem] using hv
        unfold Idle
        rw [hothers₂ v hmem, hvu]
        exact hidle₁
    · rw [List.mem_cons, not_or] at hv
      rw [hothers₂ v hv.2, hothers₁ v hv.1]

theorem requests_go {es : List (Event n)} (h : ∀ e ∈ es, ∃ u, e = .go u true) : requests es = [] := by
  unfold requests
  rw [List.filterMap_eq_nil_iff]
  intro e he
  obtain ⟨u, rfl⟩ := h e he
  rfl

theorem requests_report (reqs : List Lbrss.ReportStatusRequest) :
    requests (reqs.map (Event.report (n := n))) = reqs := by
  unfold requests
  rw [List.filterMap_map]
  exact List.filterMap_some

/-- While reports only arrive, nothing is written. -/
theorem log_report (reqs : List Lbrss.ReportStatusRequest) :
    ∀ s : Reporter n, ((reqs.map .report).foldl step s).log = s.log := by
  induction reqs with
  | nil => exact fun _ => rfl
  | cons req reqs ih => exact fun s => ih (s.report req)

/-- A run in which thread `t` comes last. -/
theorem exists_run (h : 0 < n) (table : CallStatusTable) (t : Fin n) {v : CallStatus}
    (hv : lastMention key (dealt n t reqs) = some v) :
    ∃ es, requests es = reqs ∧ Succeeds es ∧ (∀ u, (run h table es).Idle u) ∧
      (run h table es).table key = some v := by
  let es₀ : List (Event n) := reqs.map .report
  obtain ⟨es₁, s₁, hrun₁, hgo₁, hidle₁, hsame₁⟩ :=
    finish_all ((List.finRange n).filter (· ≠ t)) (run h table es₀)
  obtain ⟨k, s₂, hrun₂, hidle₂, hlog₂, hothers₂⟩ := finish t (s₁.work t) s₁ le_rfl
  have hgo : ∀ e ∈ es₁ ++ List.replicate k (Event.go t true), ∃ u, e = .go u true := by
    intro e he
    rcases List.mem_append.1 he with he | he
    · exact hgo₁ e he
    · exact ⟨t, List.eq_of_mem_replicate he⟩
  have hreq : requests (es₀ ++ (es₁ ++ List.replicate k (Event.go t true))) = reqs := by
    rw [requests_append, requests_go hgo, List.append_nil, requests_report]
  have hs : Succeeds (es₀ ++ (es₁ ++ List.replicate k (Event.go t true))) := by
    intro u hmem
    rcases List.mem_append.1 hmem with hmem | hmem
    · obtain ⟨req, -, hreq⟩ := List.mem_map.1 hmem
      cases hreq
    · obtain ⟨w, hw⟩ := hgo _ hmem
      cases hw
  have hrun : run h table (es₀ ++ (es₁ ++ List.replicate k (Event.go t true))) = s₂ := by
    rw [run, List.foldl_append, List.foldl_append]
    show (List.replicate k (Event.go t true)).foldl step (es₁.foldl step (run h table es₀)) = s₂
    rw [hrun₁, hrun₂]
  -- what thread `t` has to write in the end is all that it was sent
  have hrest : s₁.rest t = (dealt n t reqs).flatMap store := by
    have hs₀ : Succeeds es₀ := fun u hmem => hs u (List.mem_append_left _ hmem)
    have hstream := (run_tally h table hs₀).stream t
    have hlog : (run h table es₀).log = [] := log_report reqs (boot h table)
    rw [hlog, requests_report] at hstream
    rw [← hstream]
    unfold rest
    rw [hsame₁ t (by simp)]
    rfl
  refine ⟨_, hreq, hs, fun u => ?_, ?_⟩
  · rw [hrun]
    by_cases hu : u = t
    · rw [hu]
      exact hidle₂
    · unfold Idle
      rw [hothers₂ u hu]
      exact hidle₁ u (by simp [hu])
  · have hrows := (run_tally h table hs).rows key
    have hsnd : ((s₁.rest t).map fun u => (t, u)).map Prod.snd = s₁.rest t := by
      rw [List.map_map]
      exact List.map_id _
    rw [hrun] at hrows
    rw [hrun, hrows, hlog₂, List.map_append, hsnd, WriteLog.last_append, hrest, last_stream, hv]
    rfl

/-- **The rows once every thread is idle.** A row shows the last report that mentions the
host among those that **one** of the threads was sent; hosts that no report mentions keep
their rows. It is the last of all the reports where one thread alone was sent all that
mention the host, as when there is only one. Each of the threads can be the one. -/
theorem rows_of_one_thread (h : 0 < n) (table : CallStatusTable) (reqs : List Lbrss.ReportStatusRequest) :
    (∀ es, requests es = reqs → Succeeds es → (∀ t, (run h table es).Idle t) → ∀ key,
      ((lastMention key reqs = none ∧ (run h table es).table key = table key) ∨
        ∃ (t : Fin n) (v : CallStatus), lastMention key (dealt n t reqs) = some v ∧
          (run h table es).table key = some v) ∧
      ∀ t : Fin n, (∀ u : Fin n, u ≠ t → lastMention key (dealt n u reqs) = none) →
        (run h table es).table key = (lastMention key reqs).or (table key)) ∧
    ∀ (t : Fin n) (key : CallStatusKey) (v : CallStatus), lastMention key (dealt n t reqs) = some v →
      ∃ es, requests es = reqs ∧ Succeeds es ∧ (∀ u, (run h table es).Idle u) ∧
        (run h table es).table key = some v := by
  refine ⟨fun es hreq hs hidle key => ?_, fun t key v hv => exists_run h table t hv⟩
  have htally := run_tally h table hs
  rw [hreq] at htally
  -- nothing is left to write, so each thread has written what it was sent
  have hstream : ∀ t : Fin n, WriteLog.last (WriteLog.ofWriter t (run h table es).log) key =
      lastMention key (dealt n t reqs) := by
    intro t
    have ht := htally.stream t
    rw [rest_of_idle (hidle t), List.append_nil] at ht
    rw [ht, last_stream]
  have hrow := htally.rows key
  refine ⟨?_, fun t ht => ?_⟩
  · cases hl : WriteLog.last ((run h table es).log.map Prod.snd) key with
    | none =>
      have hnone : ∀ t : Fin n, lastMention key (dealt n t reqs) = none := fun t =>
        (hstream t).symm.trans (WriteLog.last_ofWriter_none hl t)
      rw [hl] at hrow
      exact Or.inl ⟨(lastMention_of_only (t := ⟨0, h⟩) h fun u _ => hnone u).trans (hnone _), hrow⟩
    | some v =>
      obtain ⟨t, ht⟩ := WriteLog.exists_last hl
      rw [hl] at hrow
      exact Or.inr ⟨t, v, (hstream t).symm.trans ht, hrow⟩
  · have honly : WriteLog.last ((run h table es).log.map Prod.snd) key =
        WriteLog.last (WriteLog.ofWriter t (run h table es).log) key :=
      WriteLog.last_of_only fun u hu => (hstream u).trans (ht u hu)
    rw [hrow, honly, hstream, lastMention_of_only h ht]

/-- Two reports of one caller on one host, a minute apart. -/
def twoReports : List Lbrss.ReportStatusRequest :=
  [⟨1, 1, 7, [⟨10, 80, 5, 0, false⟩], 1000⟩, ⟨1, 1, 7, [⟨10, 80, 0, 9, true⟩], 1060⟩]

/-- Both are dealt out, and the thread that got the second is done first. -/
def overtaking : List (Event 2) :=
  twoReports.map .report ++ List.replicate 3 (.go ⟨1, Nat.one_lt_two⟩ true) ++
    List.replicate 3 (.go ⟨0, Nat.two_pos⟩ true)

theorem rows_of_one_thread_two : 0 < 2 ∧
    ∃ (t : Fin 2) (v : CallStatus), lastMention ⟨1, 1, 10, 80, 7⟩ (dealt 2 t twoReports) = some v ∧
      (run Nat.two_pos (fun _ => none) overtaking).table ⟨1, 1, 10, 80, 7⟩ = some v := by
  refine ⟨Nat.two_pos, ?_⟩
  have h := (rows_of_one_thread Nat.two_pos (fun _ => none) twoReports).1 overtaking rfl
    (by unfold Succeeds; decide) (by decide) ⟨1, 1, 10, 80, 7⟩
  refine h.1.resolve_left fun hnone => ?_
  exact absurd hnone.1 (by decide)

/-- With two threads the older report can be written last, and then the row shows it. -/
theorem last_report_overtaken :
    ¬∀ (n : ℕ) (h : 0 < n) (table : CallStatusTable) (caller : Int32) (es : List (Event n)),
      (∀ req ∈ requests es, req.caller = caller) → Succeeds es → (∀ t, (run h table es).Idle t) →
      ∀ key, (run h table es).table key = (lastMention key (requests es)).or (table key) := by
  intro hall
  have h := hall 2 Nat.two_pos (fun _ => none) 7 overtaking (by decide) (by unfold Succeeds; decide) (by decide)
    ⟨1, 1, 10, 80, 7⟩
  revert h
  decide

end Reporter

end LbRpc
