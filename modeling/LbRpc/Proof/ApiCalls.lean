import LbRpc.Api.ApiClient
import LbRpc.Base.Runs

/-!
# Which response a call of the API is built from

A call whose receive is interrupted leaves its response on the socket. `get_host` tells the
response by its sequence number; `get_route` takes what comes first.

* `recvHost_cases`, `recvHost_accept`: which response `get_host` accepts.
* `recvRoute_cases`, `recvRoute_accept`: the same for `get_route`.
* `own_response_iff`: every successful call is built from its own response exactly if no
  call meets an abandoned response that passes its checks.
-/

namespace LbRpc

namespace APIClient

variable {seq : UInt32} {modid cmdid : Int32} {k : Option ℕ} {l r : List (ℕ × AgentReply)}
  {o : Outcome}

/-! ## The receives -/

/-- A `get_host` response with a smaller sequence number, which the loop skips. -/
def Older (seq : UInt32) (x : ℕ × AgentReply) : Prop :=
  ∃ seq' modid cmdid rsp, x.2 = .getHost seq' modid cmdid rsp ∧ seq' < seq

/-- The receive after `n` others is not interrupted. -/
def Uninterrupted (k : Option ℕ) (n : ℕ) : Prop := ∀ m, k = some m → n < m

theorem uninterrupted_pred {n : ℕ} (hk : k ≠ some 0) :
    Uninterrupted (k.map (· - 1)) n ↔ Uninterrupted k (n + 1) := by
  cases k with
  | none => simp [Uninterrupted]
  | some m =>
    have hm : m ≠ 0 := fun h => hk (by rw [h])
    simp only [Uninterrupted, Option.map_some, Option.some.injEq, forall_eq']
    omega

theorem recvHost_skip {x : ℕ × AgentReply} (hx : Older seq x) (hk : k ≠ some 0) :
    recvHost seq modid cmdid k (x :: l) = recvHost seq modid cmdid (k.map (· - 1)) l := by
  obtain ⟨id, reply⟩ := x
  obtain ⟨seq', m, c, rsp, rfl, hlt⟩ := hx
  cases k with
  | none => rw [recvHost, if_pos hlt]; simp
  | some n =>
    cases n with
    | zero => exact absurd rfl hk
    | succ n => rw [recvHost, if_pos hlt]; simp

theorem recvHost_hit {id : ℕ} {rsp : Lbrss.GetHostResponse} (hk : k ≠ some 0) :
    recvHost seq modid cmdid k ((id, .getHost seq modid cmdid rsp) :: l) =
      some (l, hostOutcome id rsp) := by
  have hirr : ¬seq < seq := UInt32.lt_irrefl seq
  cases k with
  | none => simp [recvHost, hirr]
  | some n =>
    cases n with
    | zero => exact absurd rfl hk
    | succ n => simp [recvHost, hirr]

/-- **The response that passes the checks of `get_host` is accepted.** -/
theorem recvHost_accept {pre : List (ℕ × AgentReply)} {id : ℕ} {rsp : Lbrss.GetHostResponse}
    (hpre : ∀ x ∈ pre, Older seq x) (hk : Uninterrupted k pre.length) :
    recvHost seq modid cmdid k (pre ++ (id, .getHost seq modid cmdid rsp) :: r) =
      some (r, hostOutcome id rsp) := by
  have h0 : k ≠ some 0 := fun h => absurd (hk 0 h) (by omega)
  induction pre generalizing k with
  | nil => exact recvHost_hit h0
  | cons x pre ih =>
    have hk' : Uninterrupted (k.map (· - 1)) pre.length := (uninterrupted_pred h0).2 hk
    have h0' : k.map (· - 1) ≠ some 0 := fun h => absurd (hk' 0 h) (by omega)
    rw [List.cons_append, recvHost_skip (hpre x List.mem_cons_self) h0]
    exact ih (fun y hy => hpre y (List.mem_cons_of_mem x hy)) hk' h0'

/-- **No other response is.** -/
theorem recvHost_cases (h : recvHost seq modid cmdid k l = some (r, o)) :
    r <:+ l ∧ (o = systemError ∨ ∃ pre id rsp, l = pre ++ (id, .getHost seq modid cmdid rsp) :: r ∧
      (∀ x ∈ pre, Older seq x) ∧ Uninterrupted k pre.length ∧ o = hostOutcome id rsp) := by
  fun_induction recvHost seq modid cmdid k l with
  | case1 q => cases h; exact ⟨List.suffix_refl _, Or.inl rfl⟩
  | case2 => cases h
  | case3 k id rsp q => cases h; exact ⟨List.suffix_cons _ _, Or.inl rfl⟩
  | case4 k id seq' m c rsp q hk hlt ih =>
    obtain ⟨hs, hcase⟩ := ih h
    refine ⟨hs.trans (List.suffix_cons _ _), ?_⟩
    rcases hcase with rfl | ⟨pre, id', rsp', rfl, hpre, hun, rfl⟩
    · exact Or.inl rfl
    · refine Or.inr ⟨(id, .getHost seq' m c rsp) :: pre, id', rsp', rfl, ?_, ?_, rfl⟩
      · intro x hx
        rcases List.mem_cons.1 hx with rfl | hx
        · exact ⟨seq', m, c, rsp, rfl, hlt⟩
        · exact hpre x hx
      · exact (uninterrupted_pred hk).1 hun
  | case5 k id seq' m c rsp q hk hlt hne => cases h; exact ⟨List.suffix_cons _ _, Or.inl rfl⟩
  | case6 k id seq' m c rsp q hk hlt hne =>
    cases h
    simp only [not_or, not_not] at hne
    obtain ⟨rfl, rfl, rfl⟩ := hne
    refine ⟨List.suffix_cons _ _, Or.inr ⟨[], id, rsp, rfl, by simp, ?_, rfl⟩⟩
    intro n hn
    rcases Nat.eq_zero_or_pos n with rfl | hpos
    · exact absurd hn hk
    · exact hpos

/-- The loop ends at the response to the request itself. -/
theorem recvHost_ends (id : ℕ) (rsp : Lbrss.GetHostResponse) :
    recvHost seq modid cmdid k (l ++ [(id, .getHost seq modid cmdid rsp)]) ≠ none := by
  induction l generalizing k with
  | nil =>
    by_cases hk : k = some 0
    · subst hk
      simp [recvHost]
    · rw [List.nil_append, recvHost_hit hk]
      simp
  | cons x l ih =>
    by_cases hk : k = some 0
    · subst hk
      simp [recvHost]
    · by_cases hx : Older seq x
      · rw [List.cons_append, recvHost_skip hx hk]
        exact ih
      · -- a message of another type, or one that is not older, ends the loop
        obtain ⟨id', seq' | rsp'⟩ := x
        · rename_i m c rsp'
          have hlt : ¬seq' < seq := fun hlt => hx ⟨seq', m, c, rsp', rfl, hlt⟩
          rw [List.cons_append, recvHost, if_neg hlt]
          · split <;> simp
          · exact fun h => hk h
        · cases k with
          | none => simp [recvHost]
          | some n =>
            cases n with
            | zero => exact absurd rfl hk
            | succ n => simp [recvHost]

/-- **`get_route` accepts the first response, if it names the pair.** -/
theorem recvRoute_accept {id : ℕ} {hosts : List Lbrss.HostInfo} (hk : k ≠ some 0) :
    recvRoute modid cmdid k ((id, .getRoute ⟨modid, cmdid, hosts⟩) :: r) =
      some (r, routeOutcome id ⟨modid, cmdid, hosts⟩) := by
  cases k with
  | none => simp [recvRoute]
  | some n =>
    cases n with
    | zero => exact absurd rfl hk
    | succ n => simp [recvRoute]

theorem recvRoute_cases (h : recvRoute modid cmdid k l = some (r, o)) :
    r <:+ l ∧ (o = systemError ∨ ∃ id hosts, l = (id, .getRoute ⟨modid, cmdid, hosts⟩) :: r ∧
      k ≠ some 0 ∧ o = routeOutcome id ⟨modid, cmdid, hosts⟩) := by
  revert h
  fun_cases recvRoute modid cmdid k l with
  | case1 q => rintro ⟨⟩; exact ⟨List.suffix_refl _, Or.inl rfl⟩
  | case2 => rintro ⟨⟩
  | case3 => rintro ⟨⟩; exact ⟨List.suffix_cons _ _, Or.inl rfl⟩
  | case4 k id rsp q hk hne => rintro ⟨⟩; exact ⟨List.suffix_cons _ _, Or.inl rfl⟩
  | case5 k id rsp q hk hne =>
    rintro ⟨⟩
    obtain ⟨m, c, hosts⟩ := rsp
    simp only [not_or, not_not] at hne
    obtain ⟨rfl, rfl⟩ := hne
    exact ⟨List.suffix_cons _ _, Or.inr ⟨id, hosts, rfl, hk, rfl⟩⟩

theorem recvRoute_ends (hl : l ≠ []) : recvRoute modid cmdid k l ≠ none := by
  fun_cases recvRoute modid cmdid k l with
  | case1 q => simp
  | case2 => exact absurd rfl hl
  | case3 => simp
  | case4 => simp
  | case5 => simp

/-! ## The calls -/

/-- Every successful call was built from the response to its own request. -/
def OwnResponses (s : APIClient × List Outcome) : Prop :=
  ∀ (n : ℕ) (o : Outcome), s.2[n]? = some o → o.ret = .succ → o.answers = some n

/-- What waits on the sockets answers requests that were made. -/
def Waiting (s : APIClient × List Outcome) : Prop := ∀ i, ∀ x ∈ s.1.inbox i, x.1 < s.2.length

/-- **The condition on a call.** `get_host` does not come to an abandoned response with its
own sequence number and pair that carries a host, and `get_route` does not find an
abandoned response for its pair in front; or the receive that would take it is interrupted. -/
def Clear (s : APIClient × List Outcome) : Call → Prop
  | .getHost modid cmdid io _ => io.sent = true → ∀ i, sockfd (getHostIndex modid cmdid) = some i →
      ∀ pre id rsp post, s.1.inbox i = pre ++ (id, .getHost s.1.seqid modid cmdid rsp) :: post →
        (∀ x ∈ pre, Older s.1.seqid x) → rsp.retcode = .succ →
          ¬Uninterrupted io.interrupted pre.length
  | .getRoute modid cmdid io _ => io.sent = true → ∀ i, sockfd (getRouteIndex modid cmdid) = some i →
      ∀ id hosts post, s.1.inbox i = (id, .getRoute ⟨modid, cmdid, hosts⟩) :: post →
        io.interrupted = some 0

variable {s t : APIClient × List Outcome}

theorem OwnResponses.snoc (h : OwnResponses s) {c : APIClient}
    (ho : o.ret = .succ → o.answers = some s.2.length) : OwnResponses (c, s.2 ++ [o]) := by
  intro n o' hn hret
  rcases Nat.lt_trichotomy n s.2.length with hlt | rfl | hgt
  · rw [List.getElem?_append_left hlt] at hn
    exact h n o' hn hret
  · rw [List.getElem?_concat_length] at hn
    cases hn
    exact ho hret
  · rw [List.getElem?_eq_none (by simp; omega)] at hn
    cases hn

/-- **What `exchange` can do** with a request that is answered. -/
inductive Exchanged (index : Int32) (io : Io) (id : ℕ) (answer : AgentReply)
    (recv : Option ℕ → List (ℕ × AgentReply) → Option (List (ℕ × AgentReply) × Outcome))
    (c : APIClient) : Except ApiFault (APIClient × Outcome) → Prop
  | outOfRange : sockfd index = none → Exchanged index io id answer recv c (.error .outOfRange)
  | notSent {i} : sockfd index = some i → io.sent = false →
      Exchanged index io id answer recv c (.ok (c, systemError))
  | blocked {i} : sockfd index = some i → io.sent = true →
      recv io.interrupted (c.inbox i ++ [(id, answer)]) = none →
      Exchanged index io id answer recv c (.error .blocked)
  | received {i q o} : sockfd index = some i → io.sent = true →
      recv io.interrupted (c.inbox i ++ [(id, answer)]) = some (q, o) →
      Exchanged index io id answer recv c (.ok ({ c with inbox := Function.update c.inbox i q }, o))

theorem exchanged (index : Int32) (io : Io) (id : ℕ) (answer : AgentReply)
    (recv : Option ℕ → List (ℕ × AgentReply) → Option (List (ℕ × AgentReply) × Outcome))
    (c : APIClient) : Exchanged index io id answer recv c (c.exchange index io id (some answer) recv) := by
  unfold exchange
  split
  · rename_i h; exact .outOfRange h
  · rename_i i h
    split
    · rename_i hs; exact .notSent h hs
    · rename_i hs
      have hs : io.sent = true := by simpa using hs
      split
      · rename_i hr; exact .blocked h hs hr
      · rename_i q o hr; exact .received h hs hr

/-- A call on which `recv` accepts no other response than its own keeps the invariant. -/
theorem exchange_good {index : Int32} {io : Io} {answer : AgentReply}
    {recv : Option ℕ → List (ℕ × AgentReply) → Option (List (ℕ × AgentReply) × Outcome)} {c : APIClient}
    (hs : OwnResponses s) (hw : Waiting s) (hc : c.inbox = s.1.inbox)
    (hends : ∀ l, recv io.interrupted (l ++ [(s.2.length, answer)]) ≠ none)
    (hsuf : ∀ l q o, recv io.interrupted l = some (q, o) → q <:+ l)
    (hown : ∀ i q o, sockfd index = some i → io.sent = true →
      recv io.interrupted (s.1.inbox i ++ [(s.2.length, answer)]) = some (q, o) →
        o.ret = .succ → o.answers = some s.2.length) :
    (∃ c' o, c.exchange index io s.2.length (some answer) recv = .ok (c', o) ∧
      OwnResponses (c', s.2 ++ [o]) ∧ Waiting (c', s.2 ++ [o])) ∨
    c.exchange index io s.2.length (some answer) recv = .error .outOfRange := by
  have h := exchanged index io s.2.length answer recv c
  generalize hr : c.exchange index io s.2.length (some answer) recv = r at h
  cases h with
  | outOfRange _ => exact Or.inr rfl
  | notSent _ _ =>
    -- the call fails before its request leaves, and the sockets stay as they are
    refine Or.inl ⟨_, _, rfl, hs.snoc (fun hret => by cases hret), fun j x hx => ?_⟩
    rw [hc] at hx
    have hlt := hw j x hx
    simp only [List.length_append, List.length_singleton]
    omega
  | blocked _ _ hnone => exact absurd hnone (hends _)
  | @received i q o hi hsent hrecv =>
    rw [hc] at hrecv
    refine Or.inl ⟨_, _, rfl, hs.snoc (hown i q o hi hsent hrecv), fun j x hx => ?_⟩
    simp only [List.length_append, List.length_singleton]
    by_cases hj : j = i
    · subst hj
      simp only [Function.update_self] at hx
      rcases List.mem_append.1 ((hsuf _ _ _ hrecv).subset hx) with hx | hx
      · have hlt := hw j x hx
        omega
      · rw [List.mem_singleton.1 hx]
        omega
    · simp only [ne_eq, hj, not_false_eq_true, Function.update_of_ne, hc] at hx
      have hlt := hw j x hx
      omega

/-- A call that accepts a response to an earlier request breaks the property. -/
theorem exchange_bad {index : Int32} {io : Io} {answer : AgentReply}
    {recv : Option ℕ → List (ℕ × AgentReply) → Option (List (ℕ × AgentReply) × Outcome)}
    {c : APIClient} {i : Fin 3} {q : List (ℕ × AgentReply)} {id : ℕ} (hi : sockfd index = some i)
    (hsent : io.sent = true)
    (hrecv : recv io.interrupted (c.inbox i ++ [(s.2.length, answer)]) = some (q, o))
    (hret : o.ret = .succ) (hans : o.answers = some id) (hid : id < s.2.length) :
    ∃ c', c.exchange index io s.2.length (some answer) recv = .ok (c', o) ∧ ¬OwnResponses (c', s.2 ++ [o]) := by
  refine ⟨{ c with inbox := Function.update c.inbox i q }, ?_, fun h => ?_⟩
  · unfold exchange
    rw [hi]
    dsimp only
    rw [hsent, if_neg (by simp), Option.toList_some, List.map_singleton, hrecv]
  · have h := h s.2.length o List.getElem?_concat_length hret
    rw [hans] at h
    cases h
    omega

theorem not_good_step {e : Except ApiFault (APIClient × List Outcome)} {u : APIClient × List Outcome}
    (he : e = .ok u) (hbad : ¬OwnResponses u)
    (h : (∃ v, e = .ok v ∧ OwnResponses v) ∨ ∃ f, e = .error f ∧ f = .outOfRange) : False := by
  subst he
  rcases h with ⟨v, hv, hP⟩ | ⟨f, hf, -⟩
  · cases hv
    exact hbad hP
  · cases hf

theorem step_getHost (io : Io) (rsp : Lbrss.GetHostResponse) :
    step s (.getHost modid cmdid io rsp) =
      match { s.1 with seqid := s.1.seqid + 1 }.exchange (getHostIndex modid cmdid) io s.2.length
        (some (.getHost s.1.seqid modid cmdid rsp)) (recvHost s.1.seqid modid cmdid) with
      | .error f => .error f
      | .ok (c, o) => .ok (c, s.2 ++ [o]) := rfl

theorem step_getRoute (io : Io) (hosts : List Lbrss.HostInfo) :
    step s (.getRoute modid cmdid io hosts) =
      match s.1.exchange (getRouteIndex modid cmdid) io s.2.length (some (.getRoute ⟨modid, cmdid, hosts⟩))
        (recvRoute modid cmdid) with
      | .error f => .error f
      | .ok (c, o) => .ok (c, s.2 ++ [o]) := rfl

/-- A clear `get_host` accepts its own response or none that carries a host. -/
theorem getHost_own {io : Io} {rsp : Lbrss.GetHostResponse} {i : Fin 3} {q : List (ℕ × AgentReply)}
    (hC : Clear s (.getHost modid cmdid io rsp)) (hi : sockfd (getHostIndex modid cmdid) = some i)
    (hsent : io.sent = true)
    (hrecv : recvHost s.1.seqid modid cmdid io.interrupted
      (s.1.inbox i ++ [(s.2.length, .getHost s.1.seqid modid cmdid rsp)]) = some (q, o))
    (hret : o.ret = .succ) : o.answers = some s.2.length := by
  obtain ⟨-, rfl | ⟨pre, id, rsp', hl, hpre, hun, rfl⟩⟩ := recvHost_cases hrecv
  · cases hret
  · -- what it accepts is the last in the queue, its own, or was there before
    rcases List.eq_nil_or_concat q with rfl | ⟨q', z, rfl⟩
    · obtain ⟨-, hlast⟩ := List.append_inj' hl rfl
      cases hlast
      rfl
    · have hbefore : s.1.inbox i = pre ++ (id, .getHost s.1.seqid modid cmdid rsp') :: q' := by
        rw [List.concat_eq_append, ← List.cons_append, ← List.append_assoc] at hl
        exact (List.append_inj' hl rfl).1
      exact absurd hun (hC hsent i hi pre id rsp' q' hbefore hpre hret)

/-- A clear `get_route` accepts its own response or none. -/
theorem getRoute_own {io : Io} {hosts : List Lbrss.HostInfo} {i : Fin 3} {q : List (ℕ × AgentReply)}
    (hC : Clear s (.getRoute modid cmdid io hosts)) (hi : sockfd (getRouteIndex modid cmdid) = some i)
    (hsent : io.sent = true)
    (hrecv : recvRoute modid cmdid io.interrupted
      (s.1.inbox i ++ [(s.2.length, .getRoute ⟨modid, cmdid, hosts⟩)]) = some (q, o))
    (hret : o.ret = .succ) : o.answers = some s.2.length := by
  obtain ⟨-, rfl | ⟨id, hosts', hl, hk, rfl⟩⟩ := recvRoute_cases hrecv
  · cases hret
  · rcases hin : s.1.inbox i with _ | ⟨x, l⟩
    · rw [hin] at hl
      cases hl
      rfl
    · rw [hin, List.cons_append] at hl
      cases hl
      exact absurd (hC hsent i hi id hosts' l hin) hk

/-- **Every successful call is built from its own response exactly if every call is
clear.** A run ends where a call indexes outside `sockfd_`; no call waits for ever. -/
theorem own_response_iff (calls : List Call) :
    Runs.AlwaysUpTo (· = .outOfRange) step (fun _ s => OwnResponses s) (new, []) calls ↔
      Runs.Along step (fun _ s e => Clear s e) (new, []) calls := by
  refine Runs.alwaysUpTo_iff (Q := fun _ s => OwnResponses s ∧ Waiting s) (fun _ _ h => h.1) ?_ ?_ ?_
  · exact ⟨fun n o h => by simp at h, fun i x h => by cases h⟩
  · -- a clear call keeps the invariant
    rintro pre e - s - ⟨hs, hw⟩ hC
    cases e with
    | getHost modid cmdid io rsp =>
      rcases exchange_good (c := { s.1 with seqid := s.1.seqid + 1 }) hs hw rfl
        (fun l => recvHost_ends s.2.length rsp) (fun l q o h => (recvHost_cases h).1)
        (fun i q o => getHost_own hC) with ⟨c', o, hx, hs', hw'⟩ | hx
      · exact Or.inl ⟨_, by rw [step_getHost, hx], hs', hw'⟩
      · exact Or.inr ⟨_, by rw [step_getHost, hx], rfl⟩
    | getRoute modid cmdid io hosts =>
      rcases exchange_good (c := s.1) hs hw rfl (fun l => recvRoute_ends (by simp))
        (fun l q o h => (recvRoute_cases h).1) (fun i q o => getRoute_own hC) with ⟨c', o, hx, hs', hw'⟩ | hx
      · exact Or.inl ⟨_, by rw [step_getRoute, hx], hs', hw'⟩
      · exact Or.inr ⟨_, by rw [step_getRoute, hx], rfl⟩
  · -- a call that is not clear takes the abandoned response
    rintro pre e - s - ⟨hs, hw⟩ hok
    cases e with
    | getHost modid cmdid io rsp =>
      intro hsent i hi before id rsp' post hin hpre hret hun
      have hid : id < s.2.length := by
        have hmem : (id, AgentReply.getHost s.1.seqid modid cmdid rsp') ∈ s.1.inbox i := by rw [hin]; simp
        exact hw i _ hmem
      have hrecv : recvHost s.1.seqid modid cmdid io.interrupted
          (before ++ (id, .getHost s.1.seqid modid cmdid rsp') ::
            (post ++ [(s.2.length, .getHost s.1.seqid modid cmdid rsp)])) =
          some (_, hostOutcome id rsp') := recvHost_accept hpre hun
      rw [← List.cons_append, ← List.append_assoc, ← hin] at hrecv
      obtain ⟨c', hx, hbad⟩ := exchange_bad (c := { s.1 with seqid := s.1.seqid + 1 }) hi hsent hrecv hret
        rfl hid
      exact not_good_step (by rw [step_getHost, hx]) hbad hok
    | getRoute modid cmdid io hosts =>
      intro hsent i hi id hosts' post hin
      by_contra hk
      have hid : id < s.2.length := by
        have hmem : (id, AgentReply.getRoute ⟨modid, cmdid, hosts'⟩) ∈ s.1.inbox i := by rw [hin]; simp
        exact hw i _ hmem
      have hrecv : recvRoute modid cmdid io.interrupted
          ((id, .getRoute ⟨modid, cmdid, hosts'⟩) ::
            (post ++ [(s.2.length, .getRoute ⟨modid, cmdid, hosts⟩)])) =
          some (_, routeOutcome id ⟨modid, cmdid, hosts'⟩) := recvRoute_accept hk
      rw [← List.cons_append, ← hin] at hrecv
      obtain ⟨c', hx, hbad⟩ := exchange_bad (c := s.1) hi hsent hrecv rfl rfl hid
      exact not_good_step (by rw [step_getRoute, hx]) hbad hok

/-- Hosts of an interrupted `get_route` are handed out by the next one for that pair. -/
theorem own_response_fails : ¬∀ calls : List Call,
    Runs.AlwaysUpTo (· = .outOfRange) step (fun _ s => OwnResponses s) (new, []) calls := by
  intro h
  have hend := h [.getRoute 1 1 ⟨true, some 0⟩ [⟨1, 80⟩], .getRoute 1 1 ⟨true, none⟩ [⟨2, 80⟩]] _
    (List.prefix_refl _)
  rcases hend with ⟨t, ht, hP⟩ | ⟨f, hf, -⟩
  · cases ht
    have hans := hP 1 (routeOutcome 0 ⟨1, 1, [⟨1, 80⟩]⟩) rfl rfl
    cases hans
  · cases hf

end APIClient

end LbRpc
