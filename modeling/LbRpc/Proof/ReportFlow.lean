import LbRpc.Proof.StoreOrder
import LbRpc.Reporter.ReportNet
import Mathlib.Algebra.BigOperators.Group.Finset.Basic
import Mathlib.Data.Fintype.Basic

/-!
# The way of the status reports

* `Reporter.Stores`: what the store threads write between two moments, and what they leave for
  later, is what they had to write and what they were sent.
* `ReportNet.Flow`: the status reports that were committed between two moments, with those that
  were on the way before, have arrived, are on the way or are lost.
* `ReportNet.reports_in_order`: so each report arrives once or is lost, none overtakes another,
  and no statement is executed twice.
-/

namespace LbRpc

open Lbrss

namespace Reporter

variable {n : ℕ} {s u v : Reporter n} {t : Fin n}

/-- What the threads have still to write. -/
def unwritten (s : Reporter n) : Multiset Upsert := ∑ t, (s.rest t : Multiset Upsert)

/-- What they have written, the last one last. -/
def written (s : Reporter n) : List Upsert := s.log.map Prod.snd

/-- A sum of which one summand changes. -/
theorem sum_change {ι M : Type*} [Fintype ι] [DecidableEq ι] [AddCommMonoid M] {f g : ι → M} {i : ι}
    (h : ∀ j, j ≠ i → f j = g j) : ∑ j, f j + g i = ∑ j, g j + f i := by
  have hrest : ∑ j ∈ Finset.univ.erase i, f j = ∑ j ∈ Finset.univ.erase i, g j :=
    Finset.sum_congr rfl fun j hj => h j (Finset.ne_of_mem_erase hj)
  rw [← Finset.add_sum_erase Finset.univ f (Finset.mem_univ i),
    ← Finset.add_sum_erase Finset.univ g (Finset.mem_univ i), hrest]
  ac_rfl

/-- One thread goes on, and the others do not. -/
theorem unwritten_change (h : ∀ v, v ≠ t → u.threads v = s.threads v) :
    u.unwritten + s.rest t = s.unwritten + u.rest t := by
  refine sum_change (f := fun v => (u.rest v : Multiset Upsert)) (g := fun v => (s.rest v : Multiset Upsert))
    fun v hv => ?_
  have hrest : u.rest v = s.rest v := by
    unfold rest
    rw [h v hv]
  rw [hrest]

theorem rest_report (req : ReportStatusRequest) : (s.report req).rest s.index = s.rest s.index ++ store req := by
  have hthread : (s.report req).threads s.index =
      { s.threads s.index with queue := (s.threads s.index).queue ++ [req] } := Function.update_self ..
  unfold rest
  rw [hthread]
  simp

theorem unwritten_report (req : ReportStatusRequest) :
    (s.report req).unwritten = s.unwritten + (store req : Multiset Upsert) := by
  have hchange := unwritten_change (s := s) (u := s.report req) (t := s.index)
    fun v hv => Function.update_of_ne hv ..
  rw [rest_report, ← Multiset.coe_add] at hchange
  refine add_right_cancel (b := (s.rest s.index : Multiset Upsert)) ?_
  rw [hchange]
  ac_rfl

/-- The statements of a batch, one after the other. -/
theorem foldl_query (l : List Upsert) : ∀ (table : CallStatusTable) (key : CallStatusKey),
    l.foldl (fun table w => w.query table) table key = (WriteLog.last l key).or (table key) := by
  induction l using List.reverseRecOn with
  | nil => exact fun _ _ => rfl
  | append_singleton l w ih =>
    intro table key
    rw [List.foldl_append, WriteLog.last_concat]
    show Function.update (l.foldl (fun table w => w.query table) table) w.1 (some w.2) key = _
    by_cases hk : key = w.1
    · rw [hk, Function.update_self, Function.update_self]
      rfl
    · rw [Function.update_of_ne hk, Function.update_of_ne hk]
      exact ih table key

/-- **What the threads do between two moments**, in which they are sent `reqs`: they write `new`,
and these statements fail. -/
structure Stores (s u : Reporter n) (reqs : List ReportStatusRequest) (new failed : List Upsert) : Prop where
  log : u.written = s.written ++ new
  rows : ∀ key, u.table key = (WriteLog.last new key).or (s.table key)
  all : u.unwritten + (new ++ failed : List Upsert) = s.unwritten + (reqs.flatMap store : List Upsert)

theorem Stores.refl (s : Reporter n) : Stores s s [] [] [] where
  log := (List.append_nil _).symm
  rows := fun _ => rfl
  all := rfl

theorem Stores.trans {reqs reqs' : List ReportStatusRequest} {new new' failed failed' : List Upsert}
    (h : Stores s u reqs new failed) (h' : Stores u v reqs' new' failed') :
    Stores s v (reqs ++ reqs') (new ++ new') (failed ++ failed') where
  log := by rw [h'.log, h.log, List.append_assoc]
  rows := fun key => by rw [h'.rows, h.rows, WriteLog.last_append, Option.or_assoc]
  all := by
    have hall := h.all
    have hall' := h'.all
    simp only [List.flatMap_append, ← Multiset.coe_add] at hall hall' ⊢
    calc v.unwritten + (↑new + ↑new' + (↑failed + ↑failed'))
        = v.unwritten + (↑new' + ↑failed') + (↑new + ↑failed) := by ac_rfl
      _ = u.unwritten + (↑new + ↑failed) + ↑(reqs'.flatMap store) := by rw [hall']; ac_rfl
      _ = s.unwritten + (↑(reqs.flatMap store) + ↑(reqs'.flatMap store)) := by rw [hall]; ac_rfl

theorem stores_report (s : Reporter n) (req : ReportStatusRequest) : Stores s (s.report req) [req] [] [] where
  log := (List.append_nil _).symm
  rows := fun _ => rfl
  all := by
    rw [unwritten_report]
    simp

theorem Goes.stores {written : List Upsert} (h : Goes s u t written) : Stores s u [] written [] where
  log := by
    unfold Reporter.written
    rw [h.log, List.map_append, List.map_map]
    exact congrArg _ (List.map_id written)
  rows := fun key => by rw [h.table, foldl_query]
  all := by
    have hchange := unwritten_change h.others
    rw [h.rest, ← Multiset.coe_add] at hchange
    refine add_right_cancel (b := (u.rest t : Multiset Upsert)) ?_
    simp only [List.append_nil, List.flatMap_nil, Multiset.coe_nil, add_zero]
    rw [← hchange]
    ac_rfl

/-- A step of a thread, whose statement may fail. -/
theorem stores_go (s : Reporter n) (t : Fin n) (ok : Bool) :
    ∃ new failed, Stores s (s.go t ok) [] new failed ∧ (ok = true → failed = []) := by
  have htrue : ∃ new failed, Stores s (s.go t true) [] new failed ∧ failed = [] := by
    obtain ⟨new, hg, -⟩ := go_goes s t
    exact ⟨new, [], hg.stores, rfl⟩
  cases ok with
  | true =>
    obtain ⟨new, failed, hst, hf⟩ := htrue
    exact ⟨new, failed, hst, fun _ => hf⟩
  | false =>
    rcases hst : (s.threads t).statements with _ | ⟨w, rest⟩
    · -- no statement is at hand that could fail
      have hsame : s.go t false = s.go t true := by
        unfold go
        rw [hst]
        cases (s.threads t).reportMsgs <;> rfl
      obtain ⟨new, failed, hst, -⟩ := htrue
      exact ⟨new, failed, hsame ▸ hst, by simp⟩
    · have hgo : s.go t false = s.modifyThread t fun k => { k with statements := rest } := by
        unfold go
        rw [hst]
        rfl
      have hrest : s.rest t = w :: (s.go t false).rest t := by
        unfold Reporter.rest
        rw [hgo, modifyThread_self, hst]
        rfl
      have hothers : ∀ v, v ≠ t → (s.go t false).threads v = s.threads v := by
        intro v hv
        rw [hgo]
        exact modifyThread_ne hv _
      have hchange := unwritten_change hothers
      refine ⟨[], [w], ⟨?_, ?_, ?_⟩, by simp⟩
      · rw [hgo, List.append_nil]
        rfl
      · rw [hgo]
        exact fun _ => rfl
      · rw [hrest, ← Multiset.cons_coe, ← Multiset.singleton_add] at hchange
        refine add_right_cancel (b := ((s.go t false).rest t : Multiset Upsert)) ?_
        simp only [List.nil_append, List.flatMap_nil, Multiset.coe_nil, add_zero, Multiset.coe_singleton]
        rw [← hchange]
        ac_rfl

end Reporter

namespace ReportNet

variable {E : Env} {n : ℕ} {s u v : ReportNet n} {e : Event n}

/-- What is on the way to the service, the oldest first. -/
def waiting (s : ReportNet n) : List ReportStatusRequest := s.wire ++ s.msgs ++ s.queue

/-- What an event puts on `report_queue`. -/
def made (E : Env) (s : ReportNet n) : Event n → List ReportStatusRequest
  | .call i op => (sentBy E (s.lbs i) op).toList
  | _ => []

/-- **What one step can do.** -/
inductive Stepped (E : Env) (s : ReportNet n) : Event n → ReportNet n → Prop
  /-- the event cannot occur -/
  | same {f : Event n} : (∀ i op, f ≠ .call i op) → Stepped E s f s
  | called {i op rl} : (s.lbs i).step E op = .ok rl → Stepped E s (.call i op) { s with
      lbs := Function.update s.lbs i rl
      queue := s.queue ++ made E s (.call i op)
      committed := s.committed ++ made E s (.call i op) }
  | took : s.msgs = [] → Stepped E s .takeQueue { s with msgs := s.queue, queue := [] }
  | sent {room req msgs} : s.msgs = req :: msgs →
      Stepped E s (.send room) { s with msgs := msgs, wire := s.wire ++ [req] }
  | refused {room req msgs} : s.msgs = req :: msgs →
      Stepped E s (.send room) { s with msgs := msgs, lost := s.lost ++ [req] }
  | connected : Stepped E s .connect { s with connected := true }
  | closed {written} : Stepped E s (.close written)
      { s with connected := false, wire := s.wire.drop written, lost := s.lost ++ s.wire.take written }
  | received {req wire} : s.wire = req :: wire → Stepped E s .receive
      { s with wire := wire, reporter := s.reporter.report req, arrived := s.arrived ++ [req] }
  | went {t ok} : Stepped E s (.go t ok) { s with reporter := s.reporter.go t ok }

theorem stepped (hs : s.step E e = .ok u) : Stepped E s e u := by
  cases e with
  | call i op =>
    have hs' : s.call E i op = .ok u := hs
    unfold ReportNet.call at hs'
    rcases hrl : (s.lbs i).step E op with f | rl
    · rw [hrl] at hs'
      cases hs'
    · rw [hrl] at hs'
      rw [← Except.ok.inj hs']
      exact .called hrl
  | takeQueue =>
    unfold ReportNet.step at hs
    dsimp only at hs
    split at hs <;> rw [← Except.ok.inj hs]
    · rename_i hmsgs
      exact .took hmsgs
    · exact .same (by simp)
  | send room =>
    rw [← Except.ok.inj hs]
    unfold ReportNet.send
    split
    · exact .same (by simp)
    · rename_i req msgs hmsgs
      split
      · exact .sent hmsgs
      · exact .refused hmsgs
  | connect =>
    rw [← Except.ok.inj hs]
    exact .connected
  | close written =>
    unfold ReportNet.step at hs
    dsimp only at hs
    split at hs <;> rw [← Except.ok.inj hs]
    · exact .closed
    · exact .same (by simp)
  | receive =>
    unfold ReportNet.step at hs
    dsimp only at hs
    split at hs
    · rw [← Except.ok.inj hs]
      unfold ReportNet.receive
      split
      · exact .same (by simp)
      · rename_i req wire hwire
        exact .received hwire
    · rw [← Except.ok.inj hs]
      exact .same (by simp)
  | go t ok =>
    rw [← Except.ok.inj hs]
    exact .went

/-- **What happens to the reports between two moments**, in which `new` are committed. -/
structure Flow (s u : ReportNet n) (new : List ReportStatusRequest) : Prop where
  committed : u.committed = s.committed ++ new
  order : (u.arrived ++ u.waiting).Sublist (s.arrived ++ s.waiting ++ new)
  all : (u.arrived ++ u.waiting ++ u.lost).Perm (s.arrived ++ s.waiting ++ s.lost ++ new)

theorem Flow.refl (s : ReportNet n) : Flow s s [] where
  committed := (List.append_nil _).symm
  order := by rw [List.append_nil]
  all := by rw [List.append_nil]

theorem Flow.trans {new new' : List ReportStatusRequest} (h : Flow s u new) (h' : Flow u v new') :
    Flow s v (new ++ new') where
  committed := by rw [h'.committed, h.committed, List.append_assoc]
  order := by
    rw [← List.append_assoc]
    exact h'.order.trans (h.order.append_right new')
  all := by
    rw [← List.append_assoc]
    exact h'.all.trans (h.all.append_right new')

/-- A step that only moves them on. -/
theorem Flow.ofMove (hcommitted : u.committed = s.committed) (hlost : u.lost = s.lost)
    (hmove : u.arrived ++ u.waiting = s.arrived ++ s.waiting) : Flow s u [] where
  committed := by rw [hcommitted, List.append_nil]
  order := by rw [hmove, List.append_nil]
  all := by rw [hmove, hlost, List.append_nil]

/-- When nothing is lost, what arrives was on the way or is new, but for what still is. -/
theorem Flow.arrive {new reqs : List ReportStatusRequest} (h : Flow s u new)
    (harrived : u.arrived = s.arrived ++ reqs) (hlost : u.lost = s.lost) :
    (reqs ++ u.waiting).Perm (s.waiting ++ new) := by
  have hall := h.all
  rw [harrived, hlost] at hall
  refine List.perm_iff_count.2 fun r => ?_
  have hcount := hall.count_eq r
  simp only [List.count_append] at hcount ⊢
  omega

/-- **One step.** -/
theorem step_flow (hs : s.step E e = .ok u) : Flow s u (made E s e) := by
  cases stepped hs with
  | same hne =>
    have hmade : made E s e = [] := by
      cases e with
      | call i op => exact absurd rfl (hne i op)
      | _ => rfl
    rw [hmade]
    exact .refl s
  | called _ =>
    refine ⟨rfl, ?_, List.perm_iff_count.2 fun a => ?_⟩
    · unfold waiting
      simp
    · unfold waiting
      simp only [List.count_append]
      omega
  | took hmsgs =>
    refine .ofMove rfl rfl ?_
    unfold waiting
    rw [hmsgs]
    simp
  | sent hmsgs =>
    refine .ofMove rfl rfl ?_
    unfold waiting
    rw [hmsgs]
    simp
  | refused hmsgs =>
    refine ⟨(List.append_nil _).symm, ?_, List.perm_iff_count.2 fun a => ?_⟩
    · unfold waiting
      rw [hmsgs]
      simp [made]
    · unfold waiting made
      rw [hmsgs]
      simp only [List.count_append, List.count_cons, List.count_nil]
      omega
  | connected => exact .ofMove rfl rfl rfl
  | @closed written =>
    have hwire : ∀ a, (s.wire.take written).count a + (s.wire.drop written).count a = s.wire.count a := by
      intro a
      rw [← List.count_append, List.take_append_drop]
    refine ⟨(List.append_nil _).symm, ?_, List.perm_iff_count.2 fun a => ?_⟩
    · unfold waiting made
      rw [List.append_nil]
      exact List.Sublist.append_left (((List.drop_sublist written s.wire).append_right _).append_right _) _
    · have hcount := hwire a
      unfold waiting made
      simp only [List.count_append, List.count_nil]
      omega
  | received hwire =>
    refine .ofMove rfl rfl ?_
    unfold waiting
    rw [hwire]
    simp
  | went => exact .ofMove rfl rfl rfl

/-- What one step does to the reporter. -/
theorem step_stores (hs : s.step E e = .ok u) : ∃ reqs new failed, u.arrived = s.arrived ++ reqs ∧
    Reporter.Stores s.reporter u.reporter reqs new failed ∧ ((∀ t, e ≠ .go t false) → failed = []) := by
  have hsame : ∃ reqs new failed, s.arrived = s.arrived ++ reqs ∧
      Reporter.Stores s.reporter s.reporter reqs new failed ∧ ((∀ t, e ≠ .go t false) → failed = []) :=
    ⟨[], [], [], (List.append_nil _).symm, .refl _, fun _ => rfl⟩
  cases stepped hs with
  | received _ => exact ⟨[_], [], [], rfl, Reporter.stores_report s.reporter _, fun _ => rfl⟩
  | @went t ok =>
    obtain ⟨new, failed, hst, hok⟩ := Reporter.stores_go s.reporter t ok
    refine ⟨[], new, failed, (List.append_nil _).symm, hst, fun hne => hok ?_⟩
    cases ok with
    | true => rfl
    | false => exact absurd rfl (hne t)
  | _ => exact hsame

/-- **Every run**: what was committed in its course, and by which events. -/
theorem run_flow {es : List (Event n)} (h : Runs.run (step E) s es = .ok u) : ∃ new, Flow s u new ∧
    ∀ req ∈ new, ∃ pre e t, pre ++ [e] <+: es ∧ Runs.run (step E) s pre = .ok t ∧ req ∈ made E t e := by
  refine Runs.run_hist (I := fun es u => ∃ new, Flow s u new ∧ ∀ req ∈ new, ∃ pre e t,
    pre ++ [e] <+: es ∧ Runs.run (step E) s pre = .ok t ∧ req ∈ made E t e) ?_ ?_ h
  · exact ⟨[], .refl s, fun req hreq => by cases hreq⟩
  · rintro pre t e v ht ⟨new, hflow, hnew⟩ hv
    refine ⟨new ++ made E t e, hflow.trans (step_flow hv), fun req hreq => ?_⟩
    rcases List.mem_append.1 hreq with hreq | hreq
    · obtain ⟨pre', e', t', hpre, ht', hmade⟩ := hnew req hreq
      exact ⟨pre', e', t', hpre.trans (List.prefix_append _ _), ht', hmade⟩
    · exact ⟨pre, e, t, List.prefix_refl _, ht, hreq⟩

/-- Every run, for the reporter. -/
theorem run_stores {es : List (Event n)} (h : Runs.run (step E) s es = .ok u) : ∃ reqs new failed,
    u.arrived = s.arrived ++ reqs ∧ Reporter.Stores s.reporter u.reporter reqs new failed ∧
      ((∀ t, .go t false ∉ es) → failed = []) := by
  refine Runs.run_hist (I := fun es u => ∃ reqs new failed, u.arrived = s.arrived ++ reqs ∧
    Reporter.Stores s.reporter u.reporter reqs new failed ∧ ((∀ t, .go t false ∉ es) → failed = [])) ?_ ?_ h
  · exact ⟨[], [], [], (List.append_nil _).symm, .refl _, fun _ => rfl⟩
  · rintro pre t e v - ⟨reqs, new, failed, harrived, hst, hfailed⟩ hv
    obtain ⟨reqs', new', failed', harrived', hst', hfailed'⟩ := step_stores hv
    refine ⟨reqs ++ reqs', new ++ new', failed ++ failed', ?_, hst.trans hst', fun hgo => ?_⟩
    · rw [harrived', harrived, List.append_assoc]
    · rw [hfailed fun t ht => hgo t (List.mem_append_left _ ht),
        hfailed' fun t ht => hgo t (by rw [ht]; simp), List.append_nil]

/-- **No report overtakes another**, in any order of what the threads do and whenever the
connection is lost. What has arrived at `get_report_status`, what is on the way and what waits in
`report_queue` are the committed reports in their order, but for those that are lost; no report
arrives twice, and each one is at one place. Of the results that have arrived each is written once,
is still to be written, or its statement failed. -/
theorem reports_in_order (E : Env) (h : 0 < n) (table : CallStatusTable) (connected : Bool)
    (es : List (Event n)) (s : ReportNet n) (hrun : Runs.run (step E) (start h table connected) es = .ok s) :
    (s.arrived ++ (s.wire ++ s.msgs ++ s.queue)).Sublist s.committed ∧
      (s.arrived ++ (s.wire ++ s.msgs ++ s.queue) ++ s.lost).Perm s.committed ∧
      ∃ failed, (s.reporter.unwritten + (s.reporter.written ++ failed : List Upsert) =
          (s.arrived.flatMap store : List Upsert)) ∧
        ((∀ t, .go t false ∉ es) → failed = []) := by
  obtain ⟨new, hflow, -⟩ := run_flow hrun
  obtain ⟨reqs, written, failed, harrived, hst, hfailed⟩ := run_stores hrun
  have hcommitted : s.committed = new := hflow.committed
  have hreqs : s.arrived = reqs := harrived
  have hwritten : s.reporter.written = written := hst.log
  have hunwritten : (start h table connected).reporter.unwritten = 0 :=
    Finset.sum_eq_zero fun t _ => rfl
  refine ⟨?_, ?_, failed, ?_, hfailed⟩
  · rw [hcommitted]
    exact hflow.order
  · rw [hcommitted]
    exact hflow.all
  · rw [hwritten, hst.all, hunwritten, zero_add, hreqs]

/-- A pair is pulled, and has one host. -/
def pulledHost : List (Event 2) :=
  [.call (Fin.last 2) (.getRoute 1 1 0 0),
    .call (Fin.last 2) (.updateHost 1 1 0 (fun _ => ⟨0, 0⟩) ⟨1, 1, [⟨5, 80⟩]⟩)]

/-- A call of the host failed. -/
def failedCall : Event 2 := .call (Fin.last 2) (.reportHost ⟨1, 1, ⟨5, 80⟩, 4⟩ 1 1 1)

/-- The first report has no room, the second one is stored by the first thread. -/
def lostReport : List (Event 2) :=
  pulledHost ++ [failedCall, failedCall, .takeQueue, .send false, .send true, .receive] ++
    List.replicate 3 (.go ⟨0, Nat.two_pos⟩ true)

theorem reports_in_order_lost : 0 < 2 ∧
    ∃ s, Runs.run (step .shipped) (start Nat.two_pos (fun _ => none) true) lostReport = .ok s ∧
      (s.arrived ++ (s.wire ++ s.msgs ++ s.queue)).Sublist s.committed ∧
      (s.arrived ++ (s.wire ++ s.msgs ++ s.queue) ++ s.lost).Perm s.committed ∧
      ∃ failed, (s.reporter.unwritten + (s.reporter.written ++ failed : List Upsert) =
          (s.arrived.flatMap store : List Upsert)) ∧
        ((∀ t, .go t false ∉ lostReport) → failed = []) := by
  obtain ⟨s, hs, -⟩ := Runs.ok_of_toOption
    (x := Runs.run (step .shipped) (start Nat.two_pos (fun _ => none) true) lostReport)
    (g := fun s => (s.arrived.length, s.lost.length)) (b := (1, 1)) (by decide +kernel)
  exact ⟨Nat.two_pos, s, hs, reports_in_order .shipped Nat.two_pos (fun _ => none) true lostReport s hs⟩

end ReportNet

end LbRpc
