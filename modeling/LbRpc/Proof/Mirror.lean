import LbRpc.Proof.CurrentHosts
import LbRpc.Proof.Pulls
import LbRpc.Proof.ReportFlow

/-!
# The reporter's table mirrors the agent's hosts

* `Current.statements`: the statements of a status report are the rows of the listed hosts.
* `ReportNet.rows_are_snapshots`: over any interleaving, a row of `ServerCallStatus` that is not
  the initial one shows a host as its load balancer had it when it committed a report.
* `ReportNet.table_mirrors_hosts`: a report that is on the way alone leaves the rows of its pair
  as the load balancer has its hosts.
-/

namespace LbRpc

open Lbrss

variable {E : Env}

/-- The row of a host, for an agent that has this configuration. -/
def HostInfo.rowKey (E : Env) (pair : GetRouteRequest) (hi : HostInfo) : CallStatusKey :=
  ⟨pair.modid, pair.cmdid, hi.ip, hi.port.toUInt32, E.config.localIp⟩

/-- What a report that is committed at this time shows of a host. -/
def HostInfo.row (commitTime : ℤ) (hi : HostInfo) : CallStatus :=
  ⟨hi.rsucc, hi.rerr, UInt32.ofNat (commitTime % 2 ^ 32).toNat, if hi.overload then 1 else 0⟩

/-- The pair that a report is for. -/
def statusPair (req : ReportStatusRequest) : GetRouteRequest := ⟨req.modid, req.cmdid⟩

def CallStatusKey.pair (key : CallStatusKey) : GetRouteRequest := ⟨key.modid, key.cmdid⟩

theorem store_pair {req : ReportStatusRequest} {w : Upsert} (h : w ∈ store req) : w.1.pair = statusPair req := by
  obtain ⟨c, -, rfl⟩ := List.mem_map.1 h
  rfl

/-! ## What a report says -/

namespace LoadBalance

variable {lb : LoadBalance} {hosts : List Lbrss.HostInfo} {a b : Addr} {hi hj : HostInfo}

/-- The host is in one of the lists. -/
def Lists (lb : LoadBalance) (a : Addr) (hi : HostInfo) : Prop :=
  a ∈ lb.idleList ++ lb.overloadList ∧ lb.heap.read a = some hi

theorem commit_ts {now : ℤ} {req : ReportStatusRequest} (h : lb.commit E now = .ok (some req)) :
    req.ts = UInt32.ofNat (now % 2 ^ 32).toNat := by
  unfold LoadBalance.commit at h
  split at h
  · cases h
  · rcases hidle : lb.idleList.mapM (callResult lb.heap false) with f | idle
    · rw [hidle] at h
      cases h
    rcases hover : lb.overloadList.mapM (callResult lb.heap true) with f | overload
    · rw [hidle, hover] at h
      cases h
    rw [hidle, hover] at h
    cases h
    rfl

/-- The statement for a result is the row of its host. -/
theorem callStatusUpsert_eq {pair : GetRouteRequest} {cts : ℤ} {req : ReportStatusRequest} (hp : statusPair req = pair)
    (hc : req.caller = E.config.localIp.toInt32) (ht : req.ts = UInt32.ofNat (cts % 2 ^ 32).toNat)
    {c : HostCallResult} (hr : lb.heap.read a = some hi) (hrep : ReportsHost lb.heap a c) :
    callStatusUpsert req c = (hi.rowKey E pair, hi.row cts) := by
  obtain ⟨hj, hrj, rfl⟩ := hrep
  rw [hr] at hrj
  obtain rfl := Option.some.inj hrj
  subst hp
  unfold callStatusUpsert HostInfo.rowKey HostInfo.row statusPair
  rw [hc, ht, UInt32.toUInt32_toInt32, UInt32.toUInt32_toInt32]

/-- **The statements of a report** are the rows of the listed hosts. -/
theorem Current.statements (h : Current hosts lb) {cts : ℤ} {sent : Option ReportStatusRequest}
    (hc : lb.commit E cts = .ok sent) (w : Upsert) :
    (∃ req ∈ sent, w ∈ store req) ↔ ∃ a hi, lb.Lists a hi ∧ w = (hi.rowKey E lb.pair, hi.row cts) := by
  obtain ⟨r, hr, hids, hall⟩ := h.book.commit (E := E) cts
  rw [hc] at hr
  obtain rfl := Except.ok.inj hr
  obtain ⟨hto, hfrom⟩ := exists_of_forall₂ hall
  -- an entry, and the statement for it
  have hrow : ∀ req, sent = some req → ∀ a hi c, lb.heap.read a = some hi → ReportsHost lb.heap a c →
      callStatusUpsert req c = (hi.rowKey E lb.pair, hi.row cts) := by
    rintro req rfl a hi c hread hrep
    obtain ⟨hmodid, hcmdid, hcaller⟩ := hids req rfl
    exact callStatusUpsert_eq (congrArg₂ GetRouteRequest.mk hmodid hcmdid) hcaller (commit_ts hc) hread hrep
  constructor
  · rintro ⟨req, hreq, hw⟩
    obtain ⟨c, hcmem, rfl⟩ := List.mem_map.1 hw
    obtain rfl : sent = some req := hreq
    obtain ⟨a, ha, hrep⟩ := hto c hcmem
    obtain ⟨hi, hread, heq⟩ := hrep
    exact ⟨a, hi, ⟨ha, hread⟩, hrow req rfl a hi c hread ⟨hi, hread, heq⟩⟩
  · rintro ⟨a, hi, ⟨ha, hread⟩, rfl⟩
    obtain ⟨c, hcmem, hrep⟩ := hfrom a ha
    rcases sent with _ | req
    · cases hcmem
    · exact ⟨req, rfl, List.mem_map.2 ⟨c, hcmem, hrow req rfl a hi c hread hrep⟩⟩

/-- No two listed hosts have the same row. -/
theorem Current.rowKey_inj (h : Current hosts lb) {pair : GetRouteRequest} (ha : lb.Lists a hi) (hb : lb.Lists b hj)
    (hrow : hi.rowKey E pair = hj.rowKey E pair) : hi = hj := by
  obtain ⟨⟨k, hk⟩, -⟩ := h.book.listed a ha.1
  obtain ⟨⟨k', hk'⟩, -⟩ := h.book.listed b hb.1
  have hkey := (h.alive hk ha.2).2
  have hkey' := (h.alive hk' hb.2).2
  obtain ⟨-, -, hip, hport, -⟩ := CallStatusKey.mk.inj hrow
  have hport' : hi.port = hj.port := by
    rw [← Int32.toInt32_toUInt32 hi.port, hport, Int32.toInt32_toUInt32]
  have hend : endpoint hi = endpoint hj := by
    unfold endpoint
    rw [hip, hport']
  rw [hend, hkey'] at hkey
  subst hkey
  rw [hk] at hk'
  obtain rfl := Option.some.inj hk'
  exact Option.some.inj (ha.2.symm.trans hb.2)

end LoadBalance

/-! ## The load balancers -/

namespace RouteLB

variable {rl rl' : RouteLB}

/-- Every load balancer has the hosts of some response. -/
theorem kept_current : Kept E fun lb => ∃ hosts, lb.Current hosts where
  new := fun modid cmdid accessCnt => ⟨[], LoadBalance.current_new modid cmdid accessCnt⟩
  pull := fun _ ⟨hosts, h⟩ => ⟨hosts, h.status .pulling⟩
  pick := fun _ _ _ ⟨hosts, h⟩ hp => ⟨hosts, h.pick hp⟩
  update := fun _ _ _ _ _ ⟨_, h⟩ hu => ⟨_, h.update hu⟩
  report := fun _ _ _ _ _ _ _ _ ⟨hosts, h⟩ hr => ⟨hosts, h.report hr⟩

theorem resetStatus_pair (lb : LoadBalance) : (resetStatus lb).pair = lb.pair := by
  unfold resetStatus
  split <;> rfl

/-- A call leaves every load balancer under the key of its pair. -/
theorem step_pair {op : Op} (h : RouteLB.step E rl op = .ok rl')
    (hrl : ∀ k lb, rl.routeLbMap.lookup k = some lb → k = pairKey lb.pair) {k : UInt64} {lb : LoadBalance}
    (hl : rl'.routeLbMap.lookup k = some lb) : k = pairKey lb.pair := by
  have hasked : ∀ {req : GetRouteRequest} {pulled : Option GetRouteRequest}, Asked req rl rl' pulled →
      k = pairKey lb.pair := by
    intro req pulled hreq
    rcases hreq.lookup hl with ⟨old, hold, hpair, -⟩ | ⟨rfl, hpair, -⟩
    · rw [hpair]
      exact hrl k old hold
    · rw [hpair]
  cases op with
  | getHost modid cmdid now junk =>
    obtain ⟨r, hr, rfl⟩ := map_ok h
    have hrun : (ApiCall.getHost modid cmdid now junk).run E rl = .ok (r.1, r.2.pulled) := by
      unfold ApiCall.run
      dsimp only
      rw [hr]
      rfl
    exact hasked (asked hrun)
  | getRoute modid cmdid now junk =>
    obtain ⟨r, hr, rfl⟩ := map_ok h
    have hrun : (ApiCall.getRoute modid cmdid now junk).run E rl = .ok (r.1, r.2.pulled) := by
      unfold ApiCall.run
      dsimp only
      rw [hr]
      rfl
    exact hasked (asked hrun)
  | reportHost req now ts cts =>
    obtain ⟨r, hr, rfl⟩ := map_ok h
    have hrun : (ApiCall.report req now ts cts).run E rl = .ok (r.1, none) := by
      unfold ApiCall.run
      dsimp only
      rw [hr]
      rfl
    exact hasked (asked hrun)
  | updateHost modid cmdid now junk rsp =>
    have hupd := updatedHost (E := E) modid cmdid now junk rsp rl
    have h' : rl.updateHost E modid cmdid now junk rsp = .ok rl' := h
    rw [h'] at hupd
    cases hupd with
    | unknown _ => exact hrl k lb hl
    | erased _ _ =>
      by_cases hk : k = key modid cmdid
      · subst hk
        rw [AList.lookup_erase] at hl
        cases hl
      · rw [AList.lookup_erase_ne hk] at hl
        exact hrl k lb hl
    | updated hin _ hu =>
      rcases lookup_set hl with ⟨rfl, rfl⟩ | ⟨-, hold⟩
      · rw [(LoadBalance.update_pair hu).1]
        exact hrl _ _ hin
      · exact hrl k lb hold
  | resetLbStatus =>
    rw [← Except.ok.inj h, lookup_resetLbStatus] at hl
    obtain ⟨old, hold, rfl⟩ := Option.map_eq_some_iff.1 hl
    rw [resetStatus_pair]
    exact hrl k old hold

end RouteLB

namespace ReportNet

open LoadBalance RouteLB

variable {n : ℕ} {s u t : ReportNet n} {e : Event n}

/-- **What every load balancer is like** at any time. -/
structure Inv (s : ReportNet n) : Prop where
  placed : ∀ i k lb, (s.lbs i).routeLbMap.lookup k = some lb → k = pairKey lb.pair
  current : ∀ i, Every (fun lb => ∃ hosts, lb.Current hosts) (s.lbs i)

theorem inv_start (h : 0 < n) (table : CallStatusTable) (connected : Bool) : Inv (start h table connected) where
  placed := fun i k lb hl => by simp [start, RouteLB.new] at hl
  current := fun i k lb hl => by simp [start, RouteLB.new] at hl

theorem Inv.step (h : Inv s) (hs : s.step E e = .ok u) : Inv u := by
  cases stepped hs with
  | @called i op rl hrl =>
    have hshard : ∀ j, Function.update s.lbs i rl j = rl ∧ j = i ∨ Function.update s.lbs i rl j = s.lbs j := by
      intro j
      by_cases hj : j = i
      · subst hj
        exact Or.inl ⟨Function.update_self .., rfl⟩
      · exact Or.inr (Function.update_of_ne hj ..)
    constructor
    · intro j k lb hl
      dsimp only at hl
      rcases hshard j with ⟨hj, rfl⟩ | hj <;> rw [hj] at hl
      · exact RouteLB.step_pair hrl (h.placed j) hl
      · exact h.placed j k lb hl
    · intro j
      dsimp only
      rcases hshard j with ⟨hj, rfl⟩ | hj <;> rw [hj]
      · refine kept_current.step (h.current j) (fun _ => (h.current j).reset ?_) hrl
        rintro lb ⟨hosts, hcur⟩
        unfold resetStatus
        split
        · exact ⟨hosts, hcur.status .new⟩
        · exact ⟨hosts, hcur⟩
      · exact h.current j
  | _ => exact ⟨h.placed, h.current⟩

theorem inv_run {es : List (Event n)} (h : Inv s) (hrun : Runs.run (ReportNet.step E) s es = .ok u) : Inv u :=
  Runs.run_inv (I := Inv) (fun _ _ _ ht hu => ht.step hu) h hrun

/-- What a report puts on the queue. -/
theorem made_report {i : Fin 3} {req : ReportRequest} {now ts cts : ℤ}
    (hs : s.step E (.call i (.reportHost req now ts cts)) = .ok u) :
    (made E s (.call i (.reportHost req now ts cts)) = [] ∧
        (u.lbs i).routeLbMap.lookup (pairKey ⟨req.modid, req.cmdid⟩) = none) ∨
      ∃ lb sent, made E s (.call i (.reportHost req now ts cts)) = sent.toList ∧
        (u.lbs i).routeLbMap.lookup (pairKey ⟨req.modid, req.cmdid⟩) = some lb ∧ lb.commit E cts = .ok sent := by
  cases stepped hs with
  | same hne => exact absurd rfl (hne _ _)
  | called hrl =>
    obtain ⟨⟨rl, sent⟩, hr, rfl⟩ := map_ok hrl
    have hmade : made E s (.call i (.reportHost req now ts cts)) = sent.toList := by
      unfold made sentBy
      dsimp only
      rw [hr]
    dsimp only
    rw [Function.update_self, hmade]
    have hrep := reportedHost (E := E) req now ts cts (s.lbs i)
    rw [hr] at hrep
    cases hrep with
    | unknown hnone => exact Or.inl ⟨rfl, hnone⟩
    | reported _ _ hc => exact Or.inr ⟨_, sent, rfl, AList.lookup_insert _, hc⟩

/-- Only reports put anything on the queue. -/
theorem report_of_made {r : ReportStatusRequest} (h : r ∈ made E s e) :
    ∃ i req now ts cts, e = .call i (.reportHost req now ts cts) := by
  cases e with
  | call i op =>
    cases op with
    | reportHost req now ts cts => exact ⟨i, req, now, ts, cts, rfl⟩
    | getHost modid cmdid now junk => cases h
    | getRoute modid cmdid now junk => cases h
    | updateHost modid cmdid now junk rsp => cases h
    | resetLbStatus => cases h
  | takeQueue => cases h
  | send room => cases h
  | connect => cases h
  | close written => cases h
  | receive => cases h
  | go t ok => cases h

/-- **A report sends the rows** of the hosts that the load balancer of its pair has behind it. -/
theorem Inv.report_rows (h : Inv s) {i : Fin 3} {req : ReportRequest} {now ts cts : ℤ}
    (hs : s.step E (.call i (.reportHost req now ts cts)) = .ok u) (w : Upsert) :
    (∃ r ∈ made E s (.call i (.reportHost req now ts cts)), w ∈ store r) ↔
      ∃ lb a hi, (u.lbs i).routeLbMap.lookup (pairKey ⟨req.modid, req.cmdid⟩) = some lb ∧ lb.Lists a hi ∧
        w = (hi.rowKey E ⟨req.modid, req.cmdid⟩, hi.row cts) := by
  have hu := h.step hs
  rcases made_report hs with ⟨hmade, hnone⟩ | ⟨lb, sent, hmade, hl, hc⟩
  · rw [hmade, hnone]
    simp
  · have hpair : lb.pair = ⟨req.modid, req.cmdid⟩ := (pairKey_inj (hu.placed i _ lb hl)).symm
    obtain ⟨hosts, hcur⟩ := hu.current i _ lb hl
    have hrows := hcur.statements hc w
    rw [hpair] at hrows
    rw [hmade, hl]
    simp only [Option.mem_def, Option.mem_toList] at hrows ⊢
    rw [hrows]
    constructor
    · rintro ⟨a, hi, hlist, hw⟩
      exact ⟨lb, a, hi, rfl, hlist, hw⟩
    · rintro ⟨lb', a, hi, hlb, hlist, hw⟩
      obtain rfl := Option.some.inj hlb
      exact ⟨a, hi, hlist, hw⟩

/-- **Each row that is sent comes from a report** of the run, and shows a host behind it. -/
theorem Inv.sent_rows (h : Inv s) {es : List (Event n)} (hrun : Runs.run (ReportNet.step E) s es = .ok u)
    {r : ReportStatusRequest} (hr : ∃ pre e t, pre ++ [e] <+: es ∧ Runs.run (ReportNet.step E) s pre = .ok t ∧
      r ∈ made E t e) {w : Upsert} (hw : w ∈ store r) :
    ∃ pre i req now ts cts v lb a hi, pre ++ [.call i (.reportHost req now ts cts)] <+: es ∧
      Runs.run (ReportNet.step E) s (pre ++ [.call i (.reportHost req now ts cts)]) = .ok v ∧
      (v.lbs i).routeLbMap.lookup (pairKey ⟨req.modid, req.cmdid⟩) = some lb ∧ lb.Lists a hi ∧
      w = (hi.rowKey E ⟨req.modid, req.cmdid⟩, hi.row cts) := by
  obtain ⟨pre, e, t, ⟨rest, hrest⟩, ht, hmade⟩ := hr
  obtain ⟨i, req, now, ts, cts, rfl⟩ := report_of_made hmade
  rw [← hrest] at hrun
  obtain ⟨v, hv, -⟩ := Runs.run_append_ok.1 hrun
  have hstep : t.step E (.call i (.reportHost req now ts cts)) = .ok v := (Runs.run_snoc ht).symm.trans hv
  obtain ⟨lb, a, hi, hlb, hlist, heq⟩ := ((inv_run h ht).report_rows hstep w).1 ⟨r, hmade, hw⟩
  exact ⟨pre, i, req, now, ts, cts, v, lb, a, hi, ⟨rest, hrest⟩, hv, hlb, hlist, heq⟩

/-! ## The rows -/

/-- **Every row is a snapshot.** Whatever is lost, fails or comes in another order, a row of
`ServerCallStatus` is the one that was there at the start, or it shows a host of the agent as its
load balancer had it behind some report for its pair. -/
theorem rows_are_snapshots (E : Env) (h : 0 < n) (table : CallStatusTable) (connected : Bool)
    (es : List (Event n)) (s : ReportNet n) (hrun : Runs.run (ReportNet.step E) (start h table connected) es = .ok s)
    (key : CallStatusKey) :
    s.reporter.table key = table key ∨
      ∃ pre i req now ts cts u lb a hi, pre ++ [.call i (.reportHost req now ts cts)] <+: es ∧
        Runs.run (ReportNet.step E) (start h table connected) (pre ++ [.call i (.reportHost req now ts cts)]) = .ok u ∧
        (u.lbs i).routeLbMap.lookup (pairKey ⟨req.modid, req.cmdid⟩) = some lb ∧ lb.Lists a hi ∧
        key = hi.rowKey E ⟨req.modid, req.cmdid⟩ ∧ s.reporter.table key = some (hi.row cts) := by
  obtain ⟨new, hflow, hnew⟩ := run_flow hrun
  obtain ⟨reqs, written, failed, harrived, hst, -⟩ := run_stores hrun
  have hrow := hst.rows key
  rcases hl : WriteLog.last written key with _ | v
  · rw [hl] at hrow
    exact Or.inl hrow
  · -- what is written has arrived, and what has arrived was committed
    right
    rw [hl] at hrow
    have hstored : (key, v) ∈ reqs.flatMap store := by
      have hall := hst.all
      have hnone : (start h table connected).reporter.unwritten = 0 := Finset.sum_eq_zero fun t _ => rfl
      rw [hnone, zero_add] at hall
      rw [← Multiset.mem_coe, ← hall, Multiset.mem_add, Multiset.mem_coe]
      exact Or.inr (List.mem_append_left _ (WriteLog.mem_of_last hl))
    obtain ⟨r, hr, hw⟩ := List.mem_flatMap.1 hstored
    have hr' : r ∈ new := by
      have hmem : r ∈ s.arrived ++ s.waiting := by
        rw [harrived]
        exact List.mem_append_left _ (List.mem_append_right _ hr)
      exact hflow.order.subset hmem
    obtain ⟨pre, i, req, now, ts, cts, u, lb, a, hi, hpre, hu, hlb, hlist, heq⟩ :=
      (inv_start h table connected).sent_rows hrun (hnew r hr') hw
    obtain ⟨hkey, hval⟩ := Prod.mk.inj heq
    exact ⟨pre, i, req, now, ts, cts, u, lb, a, hi, hpre, hu, hlb, hlist, hkey, hval ▸ hrow⟩

theorem rows_are_snapshots_lost : ∃ s : ReportNet 2,
    Runs.run (ReportNet.step .shipped) (start Nat.two_pos (fun _ => none) true) lostReport = .ok s ∧
      ∃ pre i req now ts cts u lb a hi, pre ++ [.call i (.reportHost req now ts cts)] <+: lostReport ∧
        Runs.run (ReportNet.step .shipped) (start Nat.two_pos (fun _ => none) true)
          (pre ++ [.call i (.reportHost req now ts cts)]) = .ok u ∧
        (u.lbs i).routeLbMap.lookup (pairKey ⟨req.modid, req.cmdid⟩) = some lb ∧ lb.Lists a hi ∧
        (⟨1, 1, 5, 80, Env.shipped.config.localIp⟩ : CallStatusKey) = hi.rowKey .shipped ⟨req.modid, req.cmdid⟩ ∧
        s.reporter.table ⟨1, 1, 5, 80, Env.shipped.config.localIp⟩ = some (hi.row cts) := by
  obtain ⟨s, hs, hrow⟩ := Runs.ok_of_toOption
    (x := Runs.run (ReportNet.step .shipped) (start Nat.two_pos (fun _ => none) true) lostReport)
    (g := fun s => s.reporter.table ⟨1, 1, 5, 80, Env.shipped.config.localIp⟩) (b := some ⟨0, 2, 1, 0⟩)
    (by decide +kernel)
  refine ⟨s, hs, (rows_are_snapshots .shipped Nat.two_pos (fun _ => none) true lostReport s hs _).resolve_left ?_⟩
  rw [hrow]
  simp

/-- Nothing that is on the way, or in a store thread, is for the pair. -/
def Settled (pair : GetRouteRequest) (s : ReportNet n) : Prop :=
  (∀ r ∈ s.waiting, statusPair r ≠ pair) ∧ ∀ t, ∀ w ∈ s.reporter.rest t, w.1.pair ≠ pair

theorem Settled.unwritten {pair : GetRouteRequest} (h : Settled pair s) {w : Upsert} (hw : w ∈ s.reporter.unwritten) :
    w.1.pair ≠ pair := by
  obtain ⟨t, -, hw⟩ := Multiset.mem_sum.1 hw
  exact h.2 t w hw

theorem settled_of_idle {pair : GetRouteRequest} (hwaiting : s.waiting = []) (hidle : ∀ t, s.reporter.Idle t) :
    Settled pair s := by
  constructor
  · rw [hwaiting]
    intro r hr
    cases hr
  · intro t w hw
    rw [Reporter.rest_of_idle (hidle t)] at hw
    cases hw

/-- **The table mirrors the hosts.** When nothing was on the way for a pair before a report, nothing
was lost since, no statement failed, no other report for the pair came, and nothing is on the way
for it any more, then each host that the load balancer of the pair had behind the report has the
row that shows it, and the other rows of the pair are what they were. The number of store threads
and what they did in between do not matter, nor do the reports for other pairs. -/
theorem table_mirrors_hosts (E : Env) (h : 0 < n) (table : CallStatusTable) (connected : Bool)
    (pre post : List (Event n)) (i : Fin 3) (req : ReportRequest) (now ts cts : ℤ) (s₁ s₂ s : ReportNet n)
    (hpre : Runs.run (ReportNet.step E) (start h table connected) pre = .ok s₁)
    (hcall : s₁.step E (.call i (.reportHost req now ts cts)) = .ok s₂)
    (hpost : Runs.run (ReportNet.step E) s₂ post = .ok s)
    (hbefore : Settled ⟨req.modid, req.cmdid⟩ s₁) (hbehind : Settled ⟨req.modid, req.cmdid⟩ s)
    (hlost : s.lost = s₁.lost) (hgo : ∀ t, .go t false ∉ post)
    (honly : ∀ j req' now' ts' cts', .call j (.reportHost req' now' ts' cts') ∈ post →
      (⟨req'.modid, req'.cmdid⟩ : GetRouteRequest) ≠ ⟨req.modid, req.cmdid⟩)
    (lb : LoadBalance) (hlb : (s₂.lbs i).routeLbMap.lookup (pairKey ⟨req.modid, req.cmdid⟩) = some lb) :
    (∀ a hi, lb.Lists a hi → s.reporter.table (hi.rowKey E ⟨req.modid, req.cmdid⟩) = some (hi.row cts)) ∧
      ∀ key : CallStatusKey, key.pair = ⟨req.modid, req.cmdid⟩ →
        (∀ a hi, lb.Lists a hi → hi.rowKey E ⟨req.modid, req.cmdid⟩ ≠ key) →
        s.reporter.table key = s₁.reporter.table key := by
  have hinv₁ := inv_run (inv_start h table connected) hpre
  have hinv₂ := hinv₁.step hcall
  obtain ⟨new, hflow, hnew⟩ := run_flow hpost
  obtain ⟨reqs₁, ws₁, fs₁, harrived₁, hst₁, hfs₁⟩ := step_stores hcall
  obtain ⟨reqs₂, ws₂, fs₂, harrived₂, hst₂, hfs₂⟩ := run_stores hpost
  obtain rfl := hfs₁ fun t => by simp
  obtain rfl := hfs₂ hgo
  have hst := hst₁.trans hst₂
  -- what has arrived since is what was on the way or was committed since, but for what still is
  have harrive : (reqs₁ ++ reqs₂ ++ s.waiting).Perm
      (s₁.waiting ++ (made E s₁ (.call i (.reportHost req now ts cts)) ++ new)) := by
    refine ((step_flow hcall).trans hflow).arrive ?_ hlost
    rw [harrived₂, harrived₁, List.append_assoc]
  -- so the statements for the pair are those of the report
  have hwritten : ∀ w : Upsert, w.1.pair = ⟨req.modid, req.cmdid⟩ →
      (w ∈ ws₁ ++ ws₂ ↔ ∃ r ∈ made E s₁ (.call i (.reportHost req now ts cts)), w ∈ store r) := by
    intro w hpair
    have hall : w ∈ s.reporter.unwritten + ((ws₁ ++ ws₂ ++ ([] ++ []) : List Upsert) : Multiset Upsert) ↔
        w ∈ s₁.reporter.unwritten + (((reqs₁ ++ reqs₂).flatMap store : List Upsert) : Multiset Upsert) := by
      rw [hst.all]
    simp only [Multiset.mem_add, Multiset.mem_coe, List.append_nil] at hall
    have hbefore' : w ∉ s₁.reporter.unwritten := fun hw => hbefore.unwritten hw hpair
    have hbehind' : w ∉ s.reporter.unwritten := fun hw => hbehind.unwritten hw hpair
    rw [or_iff_right hbefore', or_iff_right hbehind'] at hall
    rw [hall, List.mem_flatMap]
    constructor
    · rintro ⟨r, hr, hw⟩
      rcases List.mem_append.1 (harrive.subset (List.mem_append_left _ hr)) with hr | hr
      · exact absurd ((store_pair hw).symm.trans hpair) (hbefore.1 r hr)
      rcases List.mem_append.1 hr with hr | hr
      · exact ⟨r, hr, hw⟩
      · -- another report was for another pair
        obtain ⟨pre', j, req', now', ts', cts', -, -, -, hi, hpre', -, -, -, heq⟩ :=
          hinv₂.sent_rows hpost (hnew r hr) hw
        have hpair' : w.1.pair = ⟨req'.modid, req'.cmdid⟩ := by rw [heq]; rfl
        exact absurd (hpair'.symm.trans hpair) (honly j req' now' ts' cts' (hpre'.subset (by simp)))
    · rintro ⟨r, hr, hw⟩
      rcases List.mem_append.1 (harrive.symm.subset (List.mem_append_right _ (List.mem_append_left _ hr))) with
        hr | hr
      · exact ⟨r, hr, hw⟩
      · exact absurd ((store_pair hw).symm.trans hpair) (hbehind.1 r hr)
  have hrows : ∀ w : Upsert, w.1.pair = ⟨req.modid, req.cmdid⟩ → (w ∈ ws₁ ++ ws₂ ↔
      ∃ a hi, lb.Lists a hi ∧ w = (hi.rowKey E ⟨req.modid, req.cmdid⟩, hi.row cts)) := by
    intro w hpair
    rw [hwritten w hpair, hinv₁.report_rows hcall, hlb]
    constructor
    · rintro ⟨lb', a, hi, hlb', hlist, hw⟩
      obtain rfl := Option.some.inj hlb'
      exact ⟨a, hi, hlist, hw⟩
    · rintro ⟨a, hi, hlist, hw⟩
      exact ⟨lb, a, hi, rfl, hlist, hw⟩
  refine ⟨fun a hi hlist => ?_, fun key hpair hnone => ?_⟩
  · rw [hst.rows, WriteLog.last_of_agree (v := hi.row cts) ((hrows _ rfl).2 ⟨a, hi, hlist, rfl⟩) ?_]
    · rfl
    · intro w hw hkey
      obtain ⟨b, hj, hlist', rfl⟩ := (hrows w (by rw [hkey]; rfl)).1 hw
      obtain ⟨hosts, hcur⟩ := hinv₂.current i _ lb hlb
      rw [hcur.rowKey_inj hlist hlist' hkey.symm]
  · rw [hst.rows, WriteLog.last_eq_none.2 fun w hw hkey => ?_]
    · rfl
    · obtain ⟨a, hi, hlist, rfl⟩ := (hrows w (by rw [hkey]; exact hpair)).1 hw
      exact hnone a hi hlist hkey

/-- The report is stored by the first thread. -/
def storedReport : List (Event 2) :=
  [.takeQueue, .send true, .receive] ++ List.replicate 3 (.go ⟨0, Nat.two_pos⟩ true)

theorem table_mirrors_hosts_stored : ∃ s : ReportNet 2,
    Runs.run (ReportNet.step .shipped) (start Nat.two_pos (fun _ => none) true)
      (pulledHost ++ failedCall :: storedReport) = .ok s ∧
      s.reporter.table ⟨1, 1, 5, 80, Env.shipped.config.localIp⟩ = some ⟨0, 1, 1, 0⟩ := by
  -- before the report, behind it, and in the end
  obtain ⟨s₁, h₁, hend₁⟩ := Runs.ok_of_toOption
    (x := Runs.run (ReportNet.step .shipped) (start Nat.two_pos (fun _ => none) true) pulledHost)
    (g := fun s => (s.waiting, s.lost, decide (∀ t, s.reporter.Idle t))) (b := ([], [], true)) (by decide +kernel)
  obtain ⟨s₂, h₂, hlists⟩ := Runs.ok_of_toOption
    (x := Runs.run (ReportNet.step .shipped) (start Nat.two_pos (fun _ => none) true) (pulledHost ++ [failedCall]))
    (g := fun s => ((s.lbs (Fin.last 2)).routeLbMap.lookup (pairKey ⟨1, 1⟩)).map fun lb =>
      (lb.idleList, lb.heap.read 0))
    (b := some ([0], some ⟨5, 80, 100, 1, 0, 1, 0, 1, false, 0, 0⟩)) (by decide +kernel)
  obtain ⟨s, h₃, hend⟩ := Runs.ok_of_toOption
    (x := Runs.run (ReportNet.step .shipped) (start Nat.two_pos (fun _ => none) true)
      (pulledHost ++ failedCall :: storedReport))
    (g := fun s => (s.waiting, s.lost, decide (∀ t, s.reporter.Idle t))) (b := ([], [], true)) (by decide +kernel)
  obtain ⟨hwaiting₁, hend₁⟩ := Prod.mk.inj hend₁
  obtain ⟨hlost₁, hidle₁⟩ := Prod.mk.inj hend₁
  obtain ⟨hwaiting, hend⟩ := Prod.mk.inj hend
  obtain ⟨hlost, hidle⟩ := Prod.mk.inj hend
  have hcall : s₁.step .shipped failedCall = .ok s₂ := (Runs.run_snoc h₁).symm.trans h₂
  have hpost : Runs.run (ReportNet.step .shipped) s₂ storedReport = .ok s := by
    obtain ⟨u, hu, hrest⟩ := Runs.run_append_ok.1 h₃
    rw [h₁] at hu
    obtain rfl := Except.ok.inj hu
    obtain ⟨v, hv, hrest⟩ := Runs.run_cons_ok.1 hrest
    rw [hcall] at hv
    obtain rfl := Except.ok.inj hv
    exact hrest
  obtain ⟨lb, hlb, hlist⟩ := Option.map_eq_some_iff.1 hlists
  obtain ⟨hidleList, hread⟩ := Prod.mk.inj hlist
  refine ⟨s, h₃, (table_mirrors_hosts .shipped Nat.two_pos (fun _ => none) true pulledHost storedReport (Fin.last 2)
    ⟨1, 1, ⟨5, 80⟩, 4⟩ 1 1 1 s₁ s₂ s h₁ hcall hpost (settled_of_idle hwaiting₁ (of_decide_eq_true hidle₁))
    (settled_of_idle hwaiting (of_decide_eq_true hidle)) (hlost.trans hlost₁.symm) ?_ ?_ lb hlb).1 0
    ⟨5, 80, 100, 1, 0, 1, 0, 1, false, 0, 0⟩ ⟨?_, hread⟩⟩
  · simp [storedReport]
  · simp [storedReport]
  · rw [hidleList]
    simp

end ReportNet

end LbRpc
