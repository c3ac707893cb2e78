import LbRpc.Proof.AgentExchange
import LbRpc.Proof.Pulling

/-!
# What `reg_init` gives

`reg_init` comes back with `RET_SUCC` when a `get_route` has handed out hosts. From then on the
load balancer of the pair has hosts, until a response without hosts deletes it.

* `stocked_step`: no other call of a `RouteLB` empties a load balancer.
* `MessageNet.Knows`: a response with hosts that waits on a socket comes from a load balancer that
  has hosts.
* `MessageNet.registered_served`: so a registered pair is never `RET_NOEXIST` again.
-/

namespace LbRpc

open Lbrss

variable {E : Env}

namespace RouteLB

variable {rl rl' : RouteLB} {modid cmdid : Int32}

/-- The load balancer of the pair is there, and has hosts. -/
def Stocked (modid cmdid : Int32) (rl : RouteLB) : Prop :=
  ∃ lb, rl.routeLbMap.lookup (key modid cmdid) = some lb ∧ lb.empty = false

theorem empty_congr {lb lb' : LoadBalance} (h : lb'.hostMap = lb.hostMap) : lb'.empty = lb.empty := by
  unfold LoadBalance.empty
  rw [h]

theorem repull_empty (now : ℤ) (lb : LoadBalance) : (repull E now lb).1.empty = lb.empty := by
  unfold repull
  split <;> rfl

/-- Another load balancer is put at its place, and is not empty if this one was not. -/
theorem Stocked.set (h : Stocked modid cmdid rl) {k : UInt64} {lb : LoadBalance}
    (hlb : ∀ old, rl.routeLbMap.lookup k = some old → old.empty = false → lb.empty = false)
    (hk : rl.routeLbMap.lookup k ≠ none) : Stocked modid cmdid (rl.set k lb) := by
  obtain ⟨old, hold, hne⟩ := h
  by_cases hkey : key modid cmdid = k
  · subst hkey
    exact ⟨lb, AList.lookup_insert _, hlb old hold hne⟩
  · exact ⟨old, (AList.lookup_insert_ne hkey).trans hold, hne⟩

/-- A new load balancer comes to a place that was empty. -/
theorem Stocked.add (h : Stocked modid cmdid rl) {k : UInt64} {lb : LoadBalance}
    (hk : rl.routeLbMap.lookup k = none) : Stocked modid cmdid (rl.set k lb) := by
  obtain ⟨old, hold, hne⟩ := h
  refine ⟨old, (AList.lookup_insert_ne fun hkey => ?_).trans hold, hne⟩
  rw [hkey, hk] at hold
  cases hold

/-- The call is a response without hosts for the pair. -/
def Erases (modid cmdid : Int32) (op : Op) : Prop :=
  ∃ now junk rsp, op = .updateHost modid cmdid now junk rsp ∧ rsp.host = []

/-- **No other call empties a load balancer.** -/
theorem stocked_step {op : Op} (h : Stocked modid cmdid rl) (hop : ¬ Erases modid cmdid op)
    (hs : rl.step E op = .ok rl') : Stocked modid cmdid rl' := by
  cases op with
  | getHost m c now junk =>
    obtain ⟨r, hr, rfl⟩ := map_ok hs
    have hgot := gotHost (E := E) m c now junk rl
    rw [hr] at hgot
    cases hgot with
    | unknown hnone => exact h.add hnone
    | waiting _ _ _ => exact h
    | picked hl hne hp =>
      refine h.set (fun old _ _ => ?_) (by rw [hl]; simp)
      rw [repull_empty, empty_congr (LoadBalance.picked hp).frame.1, hne]
  | getRoute m c now junk =>
    obtain ⟨r, hr, rfl⟩ := map_ok hs
    have hgot := gotRoute (E := E) m c now junk rl
    rw [hr] at hgot
    cases hgot with
    | unknown hnone => exact h.add hnone
    | routes hl _ =>
      refine h.set (fun old hold hne => ?_) (by rw [hl]; simp)
      rw [hl] at hold
      rw [repull_empty, Option.some.inj hold, hne]
  | reportHost req now ts cts =>
    obtain ⟨r, hr, rfl⟩ := map_ok hs
    have hrep := reportedHost (E := E) req now ts cts rl
    rw [hr] at hrep
    cases hrep with
    | unknown _ => exact h
    | reported hl hp _ =>
      refine h.set (fun old hold hne => ?_) (by rw [hl]; simp)
      rw [hl] at hold
      rw [empty_congr (LoadBalance.report_hostMap hp), Option.some.inj hold, hne]
  | updateHost m c now junk rsp =>
    have hupd := updatedHost (E := E) m c now junk rsp rl
    have hs' : rl.updateHost E m c now junk rsp = .ok rl' := hs
    rw [hs'] at hupd
    cases hupd with
    | unknown _ => exact h
    | erased _ hnil =>
      obtain ⟨old, hold, hne⟩ := h
      refine ⟨old, (AList.lookup_erase_ne fun hkey => ?_).trans hold, hne⟩
      obtain ⟨rfl, rfl⟩ := key_inj hkey
      exact hop ⟨now, junk, rsp, rfl, hnil⟩
    | updated hl _ hu => exact h.set (fun _ _ _ => update_not_empty hu) (by rw [hl]; simp)
  | resetLbStatus =>
    obtain ⟨old, hold, hne⟩ := h
    rw [← Except.ok.inj hs]
    refine ⟨resetStatus old, ?_, ?_⟩
    · rw [lookup_resetLbStatus, hold]
      rfl
    · rw [resetStatus_empty, hne]

/-- A list of hosts comes from a load balancer that has hosts. -/
theorem stocked_of_route {now : ℤ} {junk : Int32} {reply : RouteReply}
    (h : rl.getRoute E modid cmdid now junk = .ok (rl', reply)) (hne : reply.host ≠ []) :
    Stocked modid cmdid rl' := by
  have hgot := gotRoute (E := E) modid cmdid now junk rl
  rw [h] at hgot
  cases hgot with
  | unknown _ => exact absurd rfl hne
  | @routes lb _ _ hm =>
    refine ⟨_, AList.lookup_insert _, ?_⟩
    rw [repull_empty]
    by_contra hempty
    have hkeys : lb.hostMap.keys = [] := List.isEmpty_iff.1 (eq_true_of_ne_false hempty)
    have hentries : lb.hostMap.entries = [] := List.map_eq_nil_iff.1 hkeys
    have hnil : lb.getAllHosts = [] := by
      unfold LoadBalance.getAllHosts
      rw [hentries]
      rfl
    rw [hnil] at hm
    cases hm
    exact hne rfl

/-- What a load balancer that has hosts answers. -/
theorem Stocked.getHost (h : Stocked modid cmdid rl) {now : ℤ} {junk : Int32} {reply : HostReply}
    (hg : rl.getHost E modid cmdid now junk = .ok (rl', reply)) :
    reply.rsp.retcode = .succ ∨ reply.rsp.retcode = .overload := by
  obtain ⟨lb, hl, hne⟩ := h
  have hgot := gotHost (E := E) modid cmdid now junk rl
  rw [hg] at hgot
  cases hgot with
  | unknown hnone =>
    rw [hnone] at hl
    cases hl
  | waiting hl' hempty _ =>
    rw [hl] at hl'
    rw [Option.some.inj hl', hempty] at hne
    cases hne
  | picked _ _ hp =>
    have hpicked := LoadBalance.picked hp
    cases hpicked with
    | overload _ _ _ => exact Or.inl rfl
    | reject _ _ => exact Or.inr rfl
    | idle _ _ _ => exact Or.inl rfl

end RouteLB

namespace MessageNet

open RouteLB

variable {inetAton : List Char → Option UInt32} {a b : MessageNet} {modid cmdid : Int32} {i : Fin 3}

/-- What arrives on the socket: the answer, if it was sent. -/
def arrived (answered : Bool) (x : ℕ × AgentReply) : List (ℕ × AgentReply) := if answered then [x] else []

theorem mem_arrived {answered : Bool} {x y : ℕ × AgentReply} (h : y ∈ arrived answered x) : y = x := by
  cases answered with
  | false => cases h
  | true => exact List.mem_singleton.1 h

/-- **What an exchange can do.** -/
theorem exchange_ok {γ : Type} {index : Int32} {io : Io} {answered : Bool} {call : RouteLB → Except Fault (RouteLB × γ)} {unsent : γ}
    {reply : γ → AgentReply} {recv : Option ℕ → List (ℕ × AgentReply) → Option (List (ℕ × AgentReply) × Outcome)}
    (h : a.exchange index io answered call unsent reply recv = .ok b) : ∃ i, APIClient.sockfd index = some i ∧
      ((io.sent = false ∧ b = { a with outcomes := a.outcomes ++ [APIClient.systemError] }) ∨
        ∃ rl g q o, call (a.lbs i) = .ok (rl, g) ∧
          recv io.interrupted (a.api.inbox i ++ arrived answered (a.outcomes.length, reply g)) = some (q, o) ∧
          b = ⟨{ a.api with inbox := Function.update a.api.inbox i q }, Function.update a.lbs i rl,
            a.outcomes ++ [o]⟩) := by
  unfold MessageNet.exchange MessageNet.serve at h
  rcases hi : APIClient.sockfd index with _ | i
  · rw [hi] at h
    cases h
  rw [hi] at h
  refine ⟨i, rfl, ?_⟩
  dsimp only at h
  by_cases hsent : io.sent = false
  · rw [if_pos hsent] at h
    unfold APIClient.exchange at h
    dsimp only at h
    rw [hi] at h
    dsimp only at h
    rw [if_pos hsent] at h
    exact Or.inl ⟨hsent, (Except.ok.inj h).symm⟩
  · rw [if_neg hsent] at h
    rcases hcall : call (a.lbs i) with f | ⟨rl, g⟩
    · rw [hcall] at h
      cases h
    rw [hcall] at h
    dsimp only at h
    unfold APIClient.exchange at h
    rw [hi] at h
    dsimp only at h
    rw [if_neg hsent] at h
    have hback : (if answered then some (reply g) else none).toList.map (fun reply => (a.outcomes.length, reply)) =
        arrived answered (a.outcomes.length, reply g) := by cases answered <;> rfl
    rw [hback] at h
    rcases hrecv : recv io.interrupted (a.api.inbox i ++ arrived answered (a.outcomes.length, reply g))
      with _ | ⟨q, o⟩
    · rw [hrecv] at h
      cases h
    · rw [hrecv] at h
      exact Or.inr ⟨rl, g, q, o, rfl, hrecv, (Except.ok.inj h).symm⟩

/-- **What a report can do.** -/
theorem report_ok {ip : List Char} {port retcode : Int32} {junk : UInt32} {sent : Bool} {env : CallbackEnv}
    (h : a.report E inetAton modid cmdid ip port retcode junk sent env = .ok b) :
    b = a ∨ ∃ j rl, (a.lbs j).step E (.reportHost (APIClient.reportRequest inetAton junk modid cmdid ip port retcode)
      env.now env.ts env.commitTime) = .ok rl ∧ b = { a with lbs := Function.update a.lbs j rl } := by
  unfold MessageNet.report MessageNet.serve at h
  rcases hj : APIClient.sockfd (APIClient.reportIndex modid cmdid) with _ | j
  · rw [hj] at h
    cases h
  rw [hj] at h
  dsimp only at h
  by_cases hsent : sent = false
  · rw [if_pos hsent] at h
    exact Or.inl (Except.ok.inj h).symm
  · rw [if_neg hsent] at h
    rcases hcall : (a.lbs j).reportHost E (APIClient.reportRequest inetAton junk modid cmdid ip port retcode)
      env.now env.ts env.commitTime with f | ⟨rl, out⟩
    · rw [hcall] at h
      cases h
    rw [hcall] at h
    refine Or.inr ⟨j, rl, ?_, (Except.ok.inj h).symm⟩
    show ((a.lbs j).reportHost E _ env.now env.ts env.commitTime).map _ = _
    rw [hcall]
    rfl

/-- The event is a response without hosts for the pair. -/
def Erasing (modid cmdid : Int32) : NetEvent → Prop
  | .other _ op _ => Erases modid cmdid op
  | _ => False

/-- A response with hosts for the pair, whose load balancer is this one. -/
def Backed (modid cmdid : Int32) (rl : RouteLB) (x : ℕ × AgentReply) : Prop :=
  ∀ hosts, x.2 = .getRoute ⟨modid, cmdid, hosts⟩ → hosts ≠ [] → Stocked modid cmdid rl

/-- **What one event does** to the load balancers and the sockets: nothing, or one call, and what
waits on the socket waited before or is the answer to it. -/
theorem step_cases (modid cmdid : Int32) {e : NetEvent} (hs : a.step E inetAton e = .ok b) :
    (b.lbs = a.lbs ∧ b.api.inbox = a.api.inbox) ∨ ∃ j op rl q, (a.lbs j).step E op = .ok rl ∧
      (Erases modid cmdid op → Erasing modid cmdid e) ∧ b.lbs = Function.update a.lbs j rl ∧
      b.api.inbox = Function.update a.api.inbox j q ∧ ∀ x ∈ q, x ∈ a.api.inbox j ∨ Backed modid cmdid rl x := by
  cases e with
  | getHost m c io env =>
    have hs' : a.getHost E m c io env = .ok b := hs
    rw [getHost_eq] at hs'
    obtain ⟨j, -, ⟨-, rfl⟩ | ⟨rl, g, q, o, hcall, hrecv, rfl⟩⟩ := exchange_ok hs'
    · exact Or.inl ⟨rfl, rfl⟩
    · have hop : (a.lbs j).step E (.getHost m c env.now env.junk) = .ok rl := by
        show ((a.lbs j).getHost E m c env.now env.junk).map _ = _
        rw [hcall]
        rfl
      refine Or.inr ⟨j, _, rl, q, hop, ?_, rfl, rfl, fun x hx => ?_⟩
      · rintro ⟨now, junk, rsp, hop, -⟩
        cases hop
      · rcases List.mem_append.1 ((APIClient.recvHost_cases hrecv).1.subset hx) with hx | hx
        · exact Or.inl hx
        · right
          rw [mem_arrived hx]
          intro hosts heq
          cases heq
  | getRoute m c io env =>
    have hs' : a.getRoute E m c io env = .ok b := hs
    rw [getRoute_eq] at hs'
    obtain ⟨j, -, ⟨-, rfl⟩ | ⟨rl, g, q, o, hcall, hrecv, rfl⟩⟩ := exchange_ok hs'
    · exact Or.inl ⟨rfl, rfl⟩
    · have hop : (a.lbs j).step E (.getRoute m c env.now env.junk) = .ok rl := by
        show ((a.lbs j).getRoute E m c env.now env.junk).map _ = _
        rw [hcall]
        rfl
      refine Or.inr ⟨j, _, rl, q, hop, ?_, rfl, rfl, fun x hx => ?_⟩
      · rintro ⟨now, junk, rsp, hop, -⟩
        cases hop
      · rcases List.mem_append.1 ((APIClient.recvRoute_cases hrecv).1.subset hx) with hx | hx
        · exact Or.inl hx
        · right
          rw [mem_arrived hx]
          intro hosts heq hne
          obtain ⟨rfl, rfl, rfl⟩ : m = modid ∧ c = cmdid ∧ g.host = hosts := by simpa using heq
          exact stocked_of_route hcall hne
  | report m c ip port retcode junk sent env =>
    have hs' : a.report E inetAton m c ip port retcode junk sent env = .ok b := hs
    rcases report_ok hs' with rfl | ⟨j, rl, hop, rfl⟩
    · exact Or.inl ⟨rfl, rfl⟩
    · refine Or.inr ⟨j, _, rl, a.api.inbox j, hop, ?_, rfl, (Function.update_eq_self ..).symm, fun x hx => Or.inl hx⟩
      rintro ⟨now, junk, rsp, hop, -⟩
      cases hop
  | other j op socket =>
    unfold MessageNet.step at hs
    dsimp only at hs
    rcases hop : (a.lbs j).step E op with f | rl
    · rw [hop] at hs
      cases hs
    rw [hop] at hs
    rw [← Except.ok.inj hs]
    exact Or.inr ⟨j, op, rl, a.api.inbox j, hop, id, rfl, (Function.update_eq_self ..).symm, fun x hx => Or.inl hx⟩

/-- **The invariant**: the responses with hosts that wait on the socket are from a load balancer
that has hosts. -/
def Knows (modid cmdid : Int32) (i : Fin 3) (a : MessageNet) : Prop :=
  ∀ x ∈ a.api.inbox i, Backed modid cmdid (a.lbs i) x

/-- What an event keeps, unless it is a response without hosts. -/
theorem keeps {e : NetEvent} (he : ¬ Erasing modid cmdid e) (hs : a.step E inetAton e = .ok b) :
    (Stocked modid cmdid (a.lbs i) → Stocked modid cmdid (b.lbs i)) ∧
      (Knows modid cmdid i a → Knows modid cmdid i b) := by
  rcases step_cases modid cmdid hs with ⟨hlbs, hinbox⟩ | ⟨j, op, rl, q, hop, her, hlbs, hinbox, hq⟩
  · unfold Knows
    rw [hlbs, hinbox]
    exact ⟨id, id⟩
  · unfold Knows
    rw [hlbs, hinbox]
    by_cases hj : i = j
    · subst hj
      rw [Function.update_self, Function.update_self]
      have hkeep : Stocked modid cmdid (a.lbs i) → Stocked modid cmdid rl :=
        fun h => stocked_step h (fun hop => he (her hop)) hop
      refine ⟨hkeep, fun hknows x hx => ?_⟩
      rcases hq x hx with hx | hx
      · exact fun hosts heq hne => hkeep (hknows x hx hosts heq hne)
      · exact hx
    · rw [Function.update_of_ne hj, Function.update_of_ne hj]
      exact ⟨id, id⟩

/-- The same over a run. -/
theorem keeps_run {es : List NetEvent} (hes : ∀ e ∈ es, ¬ Erasing modid cmdid e)
    (hs : Runs.run (MessageNet.step E inetAton) a es = .ok b) :
    (Stocked modid cmdid (a.lbs i) → Stocked modid cmdid (b.lbs i)) ∧
      (Knows modid cmdid i a → Knows modid cmdid i b) := by
  induction es generalizing a with
  | nil =>
    obtain rfl := Except.ok.inj hs
    exact ⟨id, id⟩
  | cons e es ih =>
    obtain ⟨c, hc, hrest⟩ := Runs.run_cons_ok.1 hs
    obtain ⟨hstocked, hknows⟩ := keeps (i := i) (hes e List.mem_cons_self) hc
    obtain ⟨hstocked', hknows'⟩ := ih (fun d hd => hes d (List.mem_cons_of_mem e hd)) hrest
    exact ⟨hstocked' ∘ hstocked, hknows' ∘ hknows⟩

/-- What the last call handed out. -/
theorem lastHosts_concat (l : List Outcome) (o : Outcome) :
    ((l ++ [o]).getLast?.toList.flatMap Outcome.hosts) = o.hosts := by
  rw [List.getLast?_concat]
  simp

/-- A `get_route` that hands out hosts got them from a load balancer that has hosts. -/
theorem Knows.getRoute (h : Knows modid cmdid i a) (hi : APIClient.sockfd (APIClient.getRouteIndex modid cmdid) = some i)
    {io : Io} {env : CallbackEnv} (hb : a.getRoute E modid cmdid io env = .ok b)
    (hne : (b.outcomes.getLast?.toList.flatMap Outcome.hosts).isEmpty = false) : Stocked modid cmdid (b.lbs i) := by
  have hnot : ¬ Erasing modid cmdid (.getRoute modid cmdid io env) := id
  have hstep : a.step E (fun _ => none) (.getRoute modid cmdid io env) = .ok b := hb
  have hkeep : Stocked modid cmdid (a.lbs i) → Stocked modid cmdid (b.lbs i) := (keeps hnot hstep).1
  rw [getRoute_eq] at hb
  obtain ⟨j, hj, ⟨-, rfl⟩ | ⟨rl, g, q, o, hcall, hrecv, rfl⟩⟩ := exchange_ok hb
  · rw [lastHosts_concat] at hne
    cases hne
  · rw [hi] at hj
    obtain rfl := Option.some.inj hj
    rw [lastHosts_concat] at hne
    obtain ⟨-, rfl | ⟨id, hosts, hl, -, rfl⟩⟩ := APIClient.recvRoute_cases hrecv
    · cases hne
    · have hhosts : hosts ≠ [] := by
        rintro rfl
        cases hne
      have hmem : (id, AgentReply.getRoute ⟨modid, cmdid, hosts⟩) ∈
          a.api.inbox i ++ arrived env.sent (a.outcomes.length, .getRoute ⟨modid, cmdid, g.host⟩) := by
        rw [hl]
        exact List.mem_cons_self
      rcases List.mem_append.1 hmem with hx | hx
      · exact hkeep (h _ hx hosts rfl hhosts)
      · obtain ⟨-, hreply⟩ := Prod.mk.inj (mem_arrived hx)
        have hhost : hosts = g.host := by simpa using hreply
        dsimp only
        rw [Function.update_self]
        exact stocked_of_route hcall (hhost ▸ hhosts)

/-- **`reg_init`** succeeds when the load balancer has hosts. -/
theorem Knows.regInit (hi : APIClient.sockfd (APIClient.getRouteIndex modid cmdid) = some i) {tries : List RegTry}
    {ret : RetCode} (h : Knows modid cmdid i a)
    (hkeep : ∀ e ∈ tries.flatMap RegTry.asleep, ¬ Erasing modid cmdid e)
    (hb : a.regInitLoop E inetAton modid cmdid tries = .ok (b, ret)) :
    ret = .succ → Stocked modid cmdid (b.lbs i) := by
  induction tries generalizing a with
  | nil =>
    intro hret
    obtain ⟨-, rfl⟩ := Prod.mk.inj (Except.ok.inj hb)
    cases hret
  | cons t tries ih =>
    unfold MessageNet.regInitLoop at hb
    rcases hc : a.getRoute E modid cmdid t.io t.env with f | c
    · rw [hc] at hb
      cases hb
    rw [hc] at hb
    dsimp only at hb
    have hnot : ¬ Erasing modid cmdid (.getRoute modid cmdid t.io t.env) := id
    have hstep : a.step E inetAton (.getRoute modid cmdid t.io t.env) = .ok c := hc
    have hknows : Knows modid cmdid i c := (keeps hnot hstep).2 h
    rcases hempty : (c.outcomes.getLast?.toList.flatMap Outcome.hosts).isEmpty with _ | _
    · rw [hempty] at hb
      obtain ⟨rfl, -⟩ := Prod.mk.inj (Except.ok.inj hb)
      exact fun _ => h.getRoute hi hc hempty
    · rw [hempty, if_pos rfl] at hb
      rcases hd : Runs.run (MessageNet.step E inetAton) c t.asleep with f | d
      · rw [hd] at hb
        cases hb
      rw [hd] at hb
      rw [List.flatMap_cons] at hkeep
      exact ih ((keeps_run (fun e he => hkeep e (List.mem_append_left _ he)) hd).2 hknows)
        (fun e he => hkeep e (List.mem_append_right _ he)) hb

/-- **A registered pair is served.** When `reg_init` has returned `RET_SUCC` and no response without
hosts for the pair was dealt with, a `get_host` for it does not return `RET_NOEXIST` at any later
time, whatever other calls, updates and resets there are; and where it can send and receive and no
abandoned response waits for it, it returns `RET_SUCC` or `RET_OVERLOAD`. -/
theorem registered_served (E : Env) (inetAton : List Char → Option UInt32) (modid cmdid : Int32)
    (es fs : List NetEvent) (tries : Fin 3 → RegTry) (io : Io) (env : CallbackEnv) (a b v w : MessageNet)
    (ha : Runs.run (MessageNet.step E inetAton) new es = .ok a)
    (hreg : a.regInit E inetAton modid cmdid tries = .ok (b, .succ))
    (hv : Runs.run (MessageNet.step E inetAton) b fs = .ok v)
    (hkeep : ∀ e ∈ es ++ ((List.ofFn tries).flatMap RegTry.asleep ++ fs), ¬ Erasing modid cmdid e)
    (hfresh : ∀ i, ∀ x ∈ v.api.inbox i, ∀ rsp, x.2 ≠ .getHost v.api.seqid modid cmdid rsp)
    (hw : v.getHost E modid cmdid io env = .ok w) :
    ∃ o, w.outcomes = v.outcomes ++ [o] ∧ o.ret ≠ .noexist ∧
      (io = ⟨true, none⟩ → (∀ i, v.api.inbox i = []) → o.ret = .succ ∨ o.ret = .overload) := by
  rw [getHost_eq] at hw
  obtain ⟨i, hi, hcases⟩ := exchange_ok hw
  have hstocked : Stocked modid cmdid (v.lbs i) := by
    have hknows : Knows modid cmdid i a := by
      refine (keeps_run (fun e he => hkeep e (List.mem_append_left _ he)) ha).2 ?_
      intro x hx
      cases hx
    have hb : Stocked modid cmdid (b.lbs i) := hknows.regInit hi
      (fun e he => hkeep e (List.mem_append_right _ (List.mem_append_left _ he))) hreg rfl
    exact (keeps_run (fun e he => hkeep e (List.mem_append_right _ (List.mem_append_right _ he))) hv).1 hb
  rcases hcases with ⟨hsent, rfl⟩ | ⟨rl, g, q, o, hcall, hrecv, rfl⟩
  · refine ⟨APIClient.systemError, rfl, by simp [APIClient.systemError], ?_⟩
    rintro rfl
    cases hsent
  · have hret := hstocked.getHost hcall
    refine ⟨o, rfl, ?_, ?_⟩
    · obtain ⟨-, rfl | ⟨pre, id, rsp, hl, -, -, rfl⟩⟩ := APIClient.recvHost_cases hrecv
      · simp [APIClient.systemError]
      · -- the response that is accepted is the answer to this call
        have hmem : (id, AgentReply.getHost v.api.seqid modid cmdid rsp) ∈
            v.api.inbox i ++ arrived env.sent (v.outcomes.length, .getHost v.api.seqid modid cmdid g.rsp) := by
          rw [hl]
          simp
        rcases List.mem_append.1 hmem with hx | hx
        · exact absurd rfl (hfresh i _ hx rsp)
        · obtain ⟨-, hreply⟩ := Prod.mk.inj (mem_arrived hx)
          have hrsp : rsp = g.rsp := by simpa using hreply
          rw [hrsp]
          intro hno
          have hno' : g.rsp.retcode = .noexist := hno
          rw [hno'] at hret
          simp at hret
    · rintro rfl hempty
      have hinbox : v.api.inbox i = [] := hempty i
      dsimp only at hrecv
      rw [hinbox, List.nil_append] at hrecv
      cases hsent : env.sent with
      | false =>
        -- without an answer the call would still wait
        rw [hsent] at hrecv
        cases hrecv
      | true =>
        rw [hsent] at hrecv
        unfold arrived at hrecv
        rw [if_pos rfl, APIClient.recvHost_hit (by simp)] at hrecv
        obtain ⟨-, rfl⟩ := Prod.mk.inj (Option.some.inj hrecv)
        exact hret

/-- The route comes while `reg_init` sleeps. -/
def oneHostTries : Fin 3 → RegTry := fun _ =>
  { io := ⟨true, none⟩
    env := ⟨0, 0, 0, 0, true⟩
    asleep := [.other (Fin.last 2) (.updateHost 1 1 0 (fun _ => ⟨0, 0⟩) ⟨1, 1, [⟨16777343, 80⟩]⟩)
      ⟨⟨fun _ => 0, fun _ => 0, []⟩, 7⟩] }

theorem registered_served_one : ∃ b w,
    MessageNet.new.regInit .shipped (fun _ => none) 1 1 oneHostTries = .ok (b, .succ) ∧
      b.getHost .shipped 1 1 ⟨true, none⟩ ⟨0, 0, 0, 0, true⟩ = .ok w ∧
      ∃ o, w.outcomes = b.outcomes ++ [o] ∧ (o.ret = .succ ∨ o.ret = .overload) := by
  obtain ⟨⟨b, ret⟩, hreg, hend⟩ := Runs.ok_of_toOption
    (x := MessageNet.new.regInit .shipped (fun _ => none) 1 1 oneHostTries)
    (g := fun r => (r.2, (List.ofFn r.1.api.inbox).flatten,
      ((r.1.getHost .shipped 1 1 ⟨true, none⟩ ⟨0, 0, 0, 0, true⟩).toOption.map fun _ => ())))
    (b := (.succ, [], some ())) (by decide +kernel)
  obtain ⟨rfl, hend⟩ := Prod.mk.inj hend
  obtain ⟨hflat, hserved⟩ := Prod.mk.inj hend
  obtain ⟨w, hw, -⟩ := Runs.ok_of_toOption hserved
  have hempty : ∀ i, b.api.inbox i = [] := fun i =>
    List.flatten_eq_nil_iff.1 hflat _ (List.mem_ofFn.2 ⟨i, rfl⟩)
  have hkeep : ∀ e ∈ [] ++ ((List.ofFn oneHostTries).flatMap RegTry.asleep ++ []), ¬ Erasing 1 1 e := by
    simp [oneHostTries, Erasing, Erases]
  obtain ⟨o, ho, -, hret⟩ := registered_served .shipped (fun _ => none) 1 1 [] [] oneHostTries ⟨true, none⟩
    ⟨0, 0, 0, 0, true⟩ .new b b w rfl hreg rfl hkeep (fun i x hx => by simp [hempty i] at hx) hw
  exact ⟨b, w, hreg, hw, o, ho, hret rfl hempty⟩

end MessageNet

end LbRpc
