import LbRpc.Agent.DnsClient
import LbRpc.Proof.ClientStream
import LbRpc.Proof.Malformed
import LbRpc.Proof.WireMessages

/-!
# The bytes between an agent and the DNS service

`new_dns_request` hands serialised requests to `send_message`; the DNS service reads the
bytes in any portions and parses what its router is called for. Its responses come back the
same way. The request for the pair `(0, 0)` is serialised to nothing, so its frame has no body.

* `endsEmpty_iff`: where a stream of messages ends with a frame without a body.
* `requests_parsed_iff`: the service gets every request as it was made, and nothing else,
  **exactly when** no read ends right behind a request for `(0, 0)`.
* `responses_applied_iff`: the agent's load balancers are updated with every response in order,
  **exactly when** each read ends less than a head behind the end of a response; the first read
  that ends elsewhere takes the agent down.
-/

namespace LbRpc

open Framing Lbrss

/-! ## Frames without a body -/

/-- **The first bytes of a stream end with an empty frame** exactly where a message without
data ends. -/
theorem endsEmpty_iff : ∀ (ms : List Message) (bs : List UInt8), (∀ m ∈ ms, m.data.length ≤ 65527) →
    bs <+: coding.stream ms →
    (EndsEmpty bs ↔ ∃ pre m, pre ++ [m] <+: ms ∧ m.data = [] ∧ bs = coding.stream (pre ++ [m])) := by
  intro ms
  induction ms with
  | nil =>
    intro bs _ hbs
    have hnil : bs = [] := List.prefix_nil.1 hbs
    subst hnil
    constructor
    · intro hend
      exact absurd hend (not_endsEmpty_of_stop (by rw [parse_nil]))
    · rintro ⟨pre, m, hpre, -, -⟩
      simp at hpre
  | cons m ms ih =>
    intro bs hms hbs
    rw [Coding.stream_cons] at hbs
    have hfits : coding.Fits m := Message.fits (hms m List.mem_cons_self)
    -- a message of the stream that ends the bytes is the first one, or is behind it
    have hfirst : ∀ pre m', pre ++ [m'] <+: m :: ms → bs = coding.stream (pre ++ [m']) →
        ∃ t, pre ++ [m'] = m :: t ∧ t <+: ms ∧ bs = coding.frame m ++ coding.stream t := by
      intro pre m' hpre hend
      rcases List.prefix_cons_iff.1 hpre with hnil | ⟨t, ht, hms'⟩
      · simp at hnil
      · refine ⟨t, ht, hms', ?_⟩
        rw [hend, ht, Coding.stream_cons]
    by_cases hlong : bs.length < (coding.frame m).length
    · have hparse := parse_prefix (C := coding) (m := m) (n := bs.length) (fun _ => hfits) hlong
      have htake : (coding.frame m).take bs.length = bs := by
        have hpre := List.prefix_iff_eq_take.1 hbs
        rw [List.take_append_of_le_length (Nat.le_of_lt hlong)] at hpre
        exact hpre.symm
      rw [htake] at hparse
      constructor
      · intro hend
        exact absurd hend (not_endsEmpty_of_stop (by rw [hparse]))
      · rintro ⟨pre, m', hpre, -, hend⟩
        obtain ⟨t, -, -, hbs'⟩ := hfirst pre m' hpre hend
        have hlen := congrArg List.length hbs'
        rw [List.length_append] at hlen
        omega
    · obtain ⟨bs', rfl⟩ : coding.frame m <+: bs :=
        List.prefix_of_prefix_length_le (List.prefix_append _ _) hbs (Nat.le_of_not_lt hlong)
      have hrest : bs' <+: coding.stream ms := (List.prefix_append_right_inj _).1 hbs
      have hframe : EndsEmpty (coding.frame m ++ bs') ↔ (m.data = [] ∧ bs' = []) ∨ EndsEmpty bs' :=
        endsEmpty_frame _ _ bs' (coding.length_head m) hfits.1 hfits.2
      rw [hframe, ih bs' (fun m' hm' => hms m' (List.mem_cons_of_mem _ hm')) hrest]
      constructor
      · rintro (⟨hdata, rfl⟩ | ⟨pre, m', hpre, hdata, rfl⟩)
        · refine ⟨[], m, ?_, hdata, ?_⟩
          · exact (List.prefix_cons_inj m).2 List.nil_prefix
          · rw [List.nil_append, Coding.stream_cons, Coding.stream_nil]
        · exact ⟨m :: pre, m', (List.prefix_cons_inj m).2 hpre, hdata, (Coding.stream_cons _ _).symm⟩
      · rintro ⟨pre, m', hpre, hdata, hend⟩
        obtain ⟨t, ht, hms', hbs'⟩ := hfirst pre m' hpre hend
        have htail : bs' = coding.stream t := List.append_cancel_left hbs'
        rcases pre with _ | ⟨m0, pre⟩
        · obtain ⟨rfl, rfl⟩ := List.cons.inj ht
          exact Or.inl ⟨hdata, htail⟩
        · obtain ⟨-, rfl⟩ := List.cons.inj ht
          exact Or.inr ⟨pre, m', hms', hdata, htail⟩

/-! ## Requests -/

variable {R : Wire.Runtime}

/-- The items whose messages have their last byte among the first `n`. -/
def arrivedOf {α : Type} (message : α → Message) (n : ℕ) (xs : List α) : List α :=
  xs.take (coding.arrived n (xs.map message)).length

theorem arrived_map {α : Type} (message : α → Message) (n : ℕ) (xs : List α) :
    coding.arrived n (xs.map message) = (arrivedOf message n xs).map message := by
  have hpre := List.prefix_iff_eq_take.1 (Coding.arrived_prefix (C := coding) n (xs.map message))
  refine hpre.trans ?_
  unfold arrivedOf
  rw [List.map_take]

/-- What the client of an agent sends for some requests. -/
def requestMessages (R : Wire.Runtime) (reqs : List GetRouteRequest) : List Message :=
  reqs.map (newDnsRequest R)

/-- The request that `get_route` of the service makes of a call of its router. -/
def requestOf (R : Wire.Runtime) (c : Call) : Option GetRouteRequest :=
  if c.msgid = idGetRouteRequest then (GetRouteRequest.codec R).parse (GetRouteRequest.codec R).empty c.data else none

/-- **The service has got the requests that have arrived**, each as it was made. -/
structure GotRequests (R : Wire.Runtime) (reqs : List GetRouteRequest) (bs : List UInt8) (c : TcpConn) : Prop where
  opened : c.closed = false
  requests : c.calls.map (requestOf R) = (arrivedOf (newDnsRequest R) bs.length reqs).map some

theorem requestOf_call (h : R.Lawful) (req : GetRouteRequest) :
    requestOf R (newDnsRequest R req).call = some req := by
  have hid : (newDnsRequest R req).call.msgid = idGetRouteRequest := rfl
  unfold requestOf
  rw [if_pos hid]
  exact (GetRouteRequest.sound h).round_trip req

theorem newDnsRequest_fits (h : R.Lawful) (req : GetRouteRequest) : (newDnsRequest R req).data.length ≤ 65527 := by
  have hsize := GetRouteRequest.byteSize_le h req
  have hlen := (GetRouteRequest.sound h).length_serialize req
  show ((GetRouteRequest.codec R).serialize req).length ≤ 65527
  omega

/-- Only the request for `(0, 0)` has no bytes. -/
theorem newDnsRequest_empty (h : R.Lawful) {req : GetRouteRequest} :
    (newDnsRequest R req).data = [] ↔ req = ⟨0, 0⟩ := by
  constructor
  · exact fun hnil => (GetRouteRequest.sound h).serialize_eq_nil hnil
  · rintro rfl
    rfl

theorem requestMessages_fit (h : R.Lawful) (reqs : List GetRouteRequest) :
    ∀ m ∈ requestMessages R reqs, m.data.length ≤ 65527 := by
  intro m hm
  obtain ⟨req, -, rfl⟩ := List.mem_map.1 hm
  exact newDnsRequest_fits h req

/-- A connection that keeps its place in the stream has got the requests. -/
theorem Arrived.gotRequests (h : R.Lawful) {reqs : List GetRouteRequest} {bs : List UInt8} {c : TcpConn}
    (harr : Arrived bs c) (hbs : bs <+: coding.stream (requestMessages R reqs)) : GotRequests R reqs bs c := by
  have hfit : ∀ m ∈ coding.begun bs.length (requestMessages R reqs), m.data.length ≤ 65527 :=
    fun m hm => requestMessages_fit h reqs m ((Coding.begun_prefix _ _).subset hm)
  constructor
  · rw [harr.closed, parse_heads hbs hfit]
  · rw [harr.calls, calls_heads hbs hfit]
    unfold requestMessages
    rw [arrived_map, List.map_map, List.map_map]
    exact List.map_congr_left fun req _ => requestOf_call h req

/-- **A read ends right behind a request for `(0, 0)`.** -/
theorem endsEmpty_request (h : R.Lawful) {reqs : List GetRouteRequest} {bs : List UInt8}
    (hbs : bs <+: coding.stream (requestMessages R reqs)) :
    EndsEmpty bs ↔ ∃ pre, pre ++ [⟨0, 0⟩] <+: reqs ∧ bs = coding.stream (requestMessages R (pre ++ [⟨0, 0⟩])) := by
  rw [endsEmpty_iff _ bs (requestMessages_fit h reqs) hbs]
  constructor
  · rintro ⟨pre, m, hpre, hdata, rfl⟩
    have htake := List.prefix_iff_eq_take.1 hpre
    unfold requestMessages at htake
    rw [← List.map_take] at htake
    obtain ⟨sent, last, hreqs, rfl, hlast⟩ := List.map_eq_append_iff.1 htake.symm
    obtain ⟨req, rfl, rfl⟩ := List.map_eq_singleton_iff.1 hlast
    obtain rfl := (newDnsRequest_empty h).1 hdata
    refine ⟨sent, ?_, ?_⟩
    · rw [← hreqs]
      exact List.take_prefix _ _
    · unfold requestMessages
      rw [List.map_append, List.map_singleton]
  · rintro ⟨pre, hpre, rfl⟩
    refine ⟨requestMessages R pre, newDnsRequest R ⟨0, 0⟩, ?_, (newDnsRequest_empty h).2 rfl, ?_⟩
    · have hmap := hpre.map (newDnsRequest R)
      rw [List.map_append, List.map_singleton] at hmap
      exact hmap
    · unfold requestMessages
      rw [List.map_append, List.map_singleton]

/-! ## Runs of the service -/

/-- Where the connection survives its reads, it keeps its place, and none of them ends with an
empty frame. -/
theorem arrived_of_ok {rs : List Read} (hne : ∀ r ∈ rs, r.bytes ≠ []) (hroom : ∀ r ∈ rs, r.pool.HasRoom)
    (hfit : FitsPool (rs.map Read.bytes))
    (hok : ∀ pre, pre <+: rs → ∃ c, Runs.run TcpConn.step TcpConn.new pre = .ok c) :
    ∀ pre, pre <+: rs → (∃ c, Runs.run TcpConn.step TcpConn.new pre = .ok c ∧ Arrived (received pre) c) ∧
      ¬ EndsEmpty (received pre) := by
  intro pre
  induction pre using List.reverseRecOn with
  | nil =>
    intro _
    refine ⟨⟨_, rfl, arrived_new⟩, not_endsEmpty_of_stop ?_⟩
    show (parse format []).frames = []
    rw [parse_nil]
  | append_singleton pre r ih =>
    intro hpre
    obtain ⟨⟨c, hc, harr⟩, -⟩ := ih ((List.prefix_append pre [r]).trans hpre)
    have hr : r ∈ rs := hpre.subset (by simp)
    have hfits : (r.bytes.length : ℤ) + (parse format (received pre)).rest.length ≤ 8388608 := by
      have hmap := hpre.map Read.bytes
      rw [List.map_append, List.map_singleton] at hmap
      exact hfit _ _ hmap
    have hstep : Runs.run TcpConn.step TcpConn.new (pre ++ [r]) = c.step r := Runs.run_snoc hc
    rw [received_snoc]
    obtain ⟨u, hu⟩ := hok _ hpre
    by_cases hend : EndsEmpty (received pre ++ r.bytes)
    · rw [hstep, step_assert harr (hne r hr) hfits (hroom r hr) hend] at hu
      cases hu
    · rcases step_arrived harr (hne r hr) hfits hend with ⟨u, hu, harr'⟩ | ⟨-, hfull⟩
      · exact ⟨⟨u, hstep.trans hu, harr'⟩, hend⟩
      · exact absurd (hroom r hr) hfull

/-- **The DNS service gets the requests of an agent**, however their bytes are cut, if and only
if no read ends right behind a request for the pair `(0, 0)`; such a read takes the service
down. -/
theorem requests_parsed_iff (h : R.Lawful) (reqs : List GetRouteRequest) (rs : List Read)
    (hne : ∀ r ∈ rs, r.bytes ≠ []) (hroom : ∀ r ∈ rs, r.pool.HasRoom) (hfit : FitsPool (rs.map Read.bytes))
    (hrs : received rs <+: coding.stream (requestMessages R reqs)) :
    Runs.Always TcpConn.step (fun pre c => GotRequests R reqs (received pre) c) TcpConn.new rs ↔
      ∀ pre, pre <+: rs → ∀ sent, sent ++ [⟨0, 0⟩] <+: reqs →
        received pre ≠ coding.stream (requestMessages R (sent ++ [⟨0, 0⟩])) := by
  have hreceived : ∀ pre, pre <+: rs → received pre <+: coding.stream (requestMessages R reqs) := by
    rintro pre ⟨post, rfl⟩
    refine List.IsPrefix.trans ?_ hrs
    unfold received
    rw [List.map_append, List.flatten_append]
    exact List.prefix_append _ _
  constructor
  · intro hall pre hpre sent hsent hend
    have hok : ∀ pre, pre <+: rs → ∃ c, Runs.run TcpConn.step TcpConn.new pre = .ok c := by
      intro pre hpre
      obtain ⟨c, hc, -⟩ := hall pre hpre
      exact ⟨c, hc⟩
    obtain ⟨-, hnot⟩ := arrived_of_ok hne hroom hfit hok pre hpre
    exact hnot ((endsEmpty_request h (hreceived pre hpre)).2 ⟨sent, hsent, hend⟩)
  · intro hcut
    have harrived : Runs.Always TcpConn.step (fun pre c => Arrived (received pre) c) TcpConn.new rs := by
      refine Runs.always_of_step arrived_new ?_
      intro pre r hpre c hc harr
      have hr : r ∈ rs := hpre.subset (by simp)
      have hfits : (r.bytes.length : ℤ) + (parse format (received pre)).rest.length ≤ 8388608 := by
        have hmap := hpre.map Read.bytes
        rw [List.map_append, List.map_singleton] at hmap
        exact hfit _ _ hmap
      have hend : ¬ EndsEmpty (received pre ++ r.bytes) := by
        rw [← received_snoc, endsEmpty_request h (hreceived _ hpre)]
        rintro ⟨sent, hsent, hend⟩
        exact hcut _ hpre sent hsent hend
      rw [received_snoc]
      rcases step_arrived harr (hne r hr) hfits hend with hok | ⟨-, hfull⟩
      · exact hok
      · exact absurd (hroom r hr) hfull
    intro pre hpre
    obtain ⟨c, hc, harr⟩ := harrived pre hpre
    exact ⟨c, hc, harr.gotRequests h (hreceived pre hpre)⟩

/-- Two requests in one read: there is nothing wrong with `(0, 0)` when more comes with it. -/
theorem requests_parsed_together :
    let reqs : List GetRouteRequest := [⟨0, 0⟩, ⟨1, 2⟩]
    Runs.Always TcpConn.step (fun pre c => GotRequests Varint.base128 reqs (received pre) c) TcpConn.new
      [bareRead (coding.stream (requestMessages Varint.base128 reqs))] := by
  intro reqs
  set bs := coding.stream (requestMessages Varint.base128 reqs) with hbs
  have hbytes : bs = [1, 0, 0, 0, 0, 0, 0, 0, 1, 0, 0, 0, 4, 0, 0, 0, 8, 1, 16, 2] := by decide
  have hread : received [bareRead bs] = bs := List.append_nil _
  refine (requests_parsed_iff Varint.base128_lawful reqs [bareRead bs] ?_ ?_ ?_ ?_).2 ?_
  · intro r hr
    rw [List.mem_singleton.1 hr]
    show bs ≠ []
    rw [hbytes]
    decide
  · intro r hr
    rw [List.mem_singleton.1 hr]
    exact BufPool.bare_hasRoom
  · refine fitsPool_single ?_
    show (bs.length : ℤ) ≤ 8388608
    rw [hbytes]
    decide
  · rw [hread]
  · intro pre hpre sent hsent hend
    rcases sent with _ | ⟨a, sent⟩
    · -- the read goes on behind the first request
      have hlen : (received pre).length = 8 := by
        rw [hend]
        decide
      rcases List.prefix_cons_iff.1 hpre with rfl | ⟨t, rfl, ht⟩
      · cases hlen
      · rw [List.prefix_nil.1 ht, hread, hbytes] at hlen
        cases hlen
    · obtain ⟨-, hsecond⟩ := List.cons_prefix_cons.1 hsent
      have hmem : (⟨0, 0⟩ : GetRouteRequest) ∈ [⟨1, 2⟩] := hsecond.subset (by simp)
      exact absurd hmem (by decide)

/-! ## Responses -/

/-- What the DNS service sends for some responses. -/
def responseMessages (R : Wire.Runtime) (rsps : List GetRouteResponse) : List Message :=
  rsps.map (dnsResponse R)

namespace RouteLBs

variable (R : Wire.Runtime) (E : Env) (clock : ℕ → ℤ × (Addr → Junk))

/-- The calls of the client's router, from the `n`th on. -/
def callAll : ℕ → List Call → RouteLBs → Except DnsClientStop RouteLBs
  | _, [], lbs => .ok lbs
  | n, c :: cs, lbs =>
    match call R E c (clock n).1 (clock n).2 lbs with
    | .error f => .error f
    | .ok lbs => callAll (n + 1) cs lbs

/-- Some responses, one after the other. -/
def recvAll : ℕ → List GetRouteResponse → RouteLBs → Except DnsClientStop RouteLBs
  | _, [], lbs => .ok lbs
  | n, rsp :: rsps, lbs =>
    match recvRoute E rsp (clock n).1 (clock n).2 lbs with
    | .error f => .error f
    | .ok lbs => recvAll (n + 1) rsps lbs

variable {R E clock}

theorem call_response (h : R.Lawful) (rsp : GetRouteResponse) (now : ℤ) (junk : Addr → Junk) (lbs : RouteLBs) :
    call R E (dnsResponse R rsp).call now junk lbs = recvRoute E rsp now junk lbs := by
  have hid : (dnsResponse R rsp).call.msgid = idGetRouteResponse := rfl
  have hparse : (GetRouteResponse.codec R).parse (GetRouteResponse.codec R).empty (dnsResponse R rsp).call.data =
      some rsp := (GetRouteResponse.sound h).round_trip rsp
  unfold call dealRecvRoute
  rw [if_pos hid, hparse]

/-- Calls for responses do what the responses do. -/
theorem callAll_responses (h : R.Lawful) (n : ℕ) (rsps : List GetRouteResponse) (lbs : RouteLBs) :
    callAll R E clock n (rsps.map fun rsp => (dnsResponse R rsp).call) lbs = recvAll E clock n rsps lbs := by
  induction rsps generalizing n lbs with
  | nil => rfl
  | cons rsp rsps ih =>
    rw [List.map_cons]
    unfold callAll recvAll
    rw [call_response h]
    rcases recvRoute E rsp (clock n).1 (clock n).2 lbs with f | lbs'
    · rfl
    · exact ih (n + 1) lbs'

end RouteLBs

/-- **The load balancers get the responses that have arrived**, in order and as they were made,
whatever the clock and the memory hold at each. -/
structure GotResponses (R : Wire.Runtime) (rsps : List GetRouteResponse) (bs : List UInt8) (c : TcpClient) : Prop where
  connected : c.connected = true
  applied : ∀ E clock lbs, RouteLBs.callAll R E clock 0 c.calls lbs =
    RouteLBs.recvAll E clock 0 (arrivedOf (dnsResponse R) bs.length rsps) lbs

/-- `do_read` of a client whose socket has these bytes. -/
def TcpClient.read (c : TcpClient) (xs : List UInt8) : Except Crash TcpClient :=
  c.doRead (c.ibuf.length.toNat + xs.length + 1) (some xs.length) (some xs)

/-- A read ends less than a head behind the end of a response. -/
def EndsClean (R : Wire.Runtime) (rsps : List GetRouteResponse) (bs : List UInt8) : Prop :=
  bs.length < (coding.stream (responseMessages R (arrivedOf (dnsResponse R) bs.length rsps))).length + messageHeadLen

/-- The reads fit the input buffer of a client, with what was left before them. -/
def FitsClient (chunks : List (List UInt8)) : Prop :=
  ∀ pre xs, pre ++ [xs] <+: chunks → (xs.length : ℤ) + (parse format pre.flatten).rest.length ≤ TcpClient.bufSize

theorem took_new (junkOut junkIn : ℤ → UInt8) : (TcpClient.new junkOut junkIn).Took [] := by
  refine ⟨rfl, ?_, ?_, rfl, rfl⟩ <;> rw [parse_nil]
  · rfl
  · exact IOBuf.holds_new (by decide) junkIn

variable {rsps : List GetRouteResponse}

theorem responseMessages_fit (h : R.Lawful) (hsize : ∀ rsp ∈ rsps, (GetRouteResponse.codec R).byteSize rsp ≤ 65527) :
    ∀ m ∈ responseMessages R rsps, m.data.length ≤ 65527 := by
  intro m hm
  obtain ⟨rsp, hrsp, rfl⟩ := List.mem_map.1 hm
  have hlen := (GetRouteResponse.sound h).length_serialize rsp
  have hle := hsize rsp hrsp
  show ((GetRouteResponse.codec R).serialize rsp).length ≤ 65527
  omega

section Reads

variable (h : R.Lawful) (hsize : ∀ rsp ∈ rsps, (GetRouteResponse.codec R).byteSize rsp ≤ 65527)
  {bs xs : List UInt8} {c : TcpClient}

include h hsize

/-- What parses of the first bytes of the responses. -/
theorem parse_responses (hbs : bs <+: coding.stream (responseMessages R rsps)) :
    (parse format bs).bad = false ∧
      ((parse format bs).rest.length < format.headLen ↔ EndsClean R rsps bs) := by
  have hp := parse_heads hbs fun m hm =>
    responseMessages_fit h hsize m ((Coding.begun_prefix _ _).subset hm)
  rw [hp]
  refine ⟨rfl, ?_⟩
  have h8 : messageHeadLen = 8 := rfl
  show (List.drop _ bs).length < messageHeadLen ↔ _
  unfold EndsClean responseMessages
  rw [List.length_drop, arrived_map]
  omega

theorem took_responses (htook : c.Took bs) (hbs : bs <+: coding.stream (responseMessages R rsps)) :
    GotResponses R rsps bs c := by
  refine ⟨htook.connected, fun E clock lbs => ?_⟩
  have hcalls := calls_heads hbs fun m hm =>
    responseMessages_fit h hsize m ((Coding.begun_prefix _ _).subset hm)
  rw [htook.calls, hcalls]
  unfold responseMessages
  rw [arrived_map, List.map_map]
  exact RouteLBs.callAll_responses h 0 _ lbs

/-- A read that ends where it may keeps the client's place in the stream, another one crashes
it. -/
theorem read_response (htook : c.Took bs) (hxs : xs ≠ [])
    (hfit : (xs.length : ℤ) + (parse format bs).rest.length ≤ TcpClient.bufSize)
    (hbs : bs ++ xs <+: coding.stream (responseMessages R rsps)) :
    (EndsClean R rsps (bs ++ xs) → ∃ u, c.read xs = .ok u ∧ u.Took (bs ++ xs)) ∧
      (¬ EndsClean R rsps (bs ++ xs) → c.read xs = .error .outOfBounds) := by
  obtain ⟨hgood, hclean⟩ := parse_responses h hsize hbs
  have hlen := htook.ibuf.length
  have hfuel : (parse format bs).rest.length + xs.length < c.ibuf.length.toNat + xs.length + 1 := by omega
  constructor
  · exact fun hend => htook.read _ hgood hxs hfit hfuel (hclean.2 hend)
  · intro hend
    refine htook.read_overrun _ hgood hxs hfit hfuel ?_
    by_contra hshort
    exact hend (hclean.1 (Nat.lt_of_not_le hshort))

/-- Reads that all end where they may keep the client's place in the stream. The induction is on the
last read. -/
theorem took_of_clean {chunks : List (List UInt8)} (hne : ∀ xs ∈ chunks, xs ≠ []) (hfit : FitsClient chunks)
    (hchunks : chunks.flatten <+: coding.stream (responseMessages R rsps))
    (hclean : ∀ pre, pre <+: chunks → EndsClean R rsps pre.flatten) (junkOut junkIn : ℤ → UInt8) :
    ∃ c, Runs.run TcpClient.read (TcpClient.new junkOut junkIn) chunks = .ok c ∧ c.Took chunks.flatten := by
  induction chunks using List.reverseRecOn with
  | nil => exact ⟨_, rfl, took_new junkOut junkIn⟩
  | append_singleton pre xs ih =>
    have hsnoc : (pre ++ [xs]).flatten = pre.flatten ++ xs := by simp
    have hpre : pre <+: pre ++ [xs] := List.prefix_append pre [xs]
    have hend := hclean _ (List.prefix_refl _)
    rw [hsnoc] at hchunks hend ⊢
    obtain ⟨c, hc, htook⟩ := ih (fun ys hys => hne ys (hpre.subset hys))
      (fun q ys hq => hfit q ys (hq.trans hpre)) ((List.prefix_append _ _).trans hchunks)
      fun q hq => hclean q (hq.trans hpre)
    obtain ⟨u, hu, htook'⟩ := (read_response h hsize htook (hne xs (by simp))
      (hfit pre xs (List.prefix_refl _)) hchunks).1 hend
    exact ⟨u, (Runs.run_snoc hc).trans hu, htook'⟩

/-- The first read that ends elsewhere takes the client down. -/
theorem overrun_of_unclean {pre : List (List UInt8)} (hne : ∀ ys ∈ pre ++ [xs], ys ≠ [])
    (hfit : FitsClient (pre ++ [xs])) (hchunks : (pre ++ [xs]).flatten <+: coding.stream (responseMessages R rsps))
    (hclean : ∀ q, q <+: pre → EndsClean R rsps q.flatten) (hend : ¬ EndsClean R rsps (pre ++ [xs]).flatten)
    (junkOut junkIn : ℤ → UInt8) :
    Runs.run TcpClient.read (TcpClient.new junkOut junkIn) (pre ++ [xs]) = .error .outOfBounds := by
  have hsnoc : (pre ++ [xs]).flatten = pre.flatten ++ xs := by simp
  have hpre : pre <+: pre ++ [xs] := List.prefix_append pre [xs]
  rw [hsnoc] at hchunks hend
  obtain ⟨c, hc, htook⟩ := took_of_clean h hsize (fun ys hys => hne ys (hpre.subset hys))
    (fun q ys hq => hfit q ys (hq.trans hpre)) ((List.prefix_append _ _).trans hchunks) hclean junkOut junkIn
  rw [Runs.run_snoc hc]
  exact (read_response h hsize htook (hne xs (by simp)) (hfit pre xs (List.prefix_refl _)) hchunks).2 hend

end Reads

/-- **The agent's load balancers are updated with the responses of the DNS service**, however
their bytes are cut, if and only if each read ends less than a head behind the end of a
response; and the first read that ends elsewhere takes the agent down. -/
theorem responses_applied_iff (h : R.Lawful) (rsps : List GetRouteResponse) (chunks : List (List UInt8))
    (hsize : ∀ rsp ∈ rsps, (GetRouteResponse.codec R).byteSize rsp ≤ 65527) (hne : ∀ xs ∈ chunks, xs ≠ [])
    (hfit : FitsClient chunks) (hchunks : chunks.flatten <+: coding.stream (responseMessages R rsps))
    (junkOut junkIn : ℤ → UInt8) :
    (Runs.Always TcpClient.read (fun pre c => GotResponses R rsps pre.flatten c) (TcpClient.new junkOut junkIn)
        chunks ↔ ∀ pre, pre <+: chunks → EndsClean R rsps pre.flatten) ∧
      ∀ pre xs, pre ++ [xs] <+: chunks → (∀ q, q <+: pre → EndsClean R rsps q.flatten) →
        ¬ EndsClean R rsps (pre ++ [xs]).flatten →
        Runs.run TcpClient.read (TcpClient.new junkOut junkIn) (pre ++ [xs]) = .error .outOfBounds := by
  -- what holds of the reads holds of the first of them
  have hne' : ∀ pre, pre <+: chunks → ∀ xs ∈ pre, xs ≠ [] := fun pre hpre xs hxs => hne xs (hpre.subset hxs)
  have hfit' : ∀ pre, pre <+: chunks → FitsClient pre := fun pre hpre q xs hq => hfit q xs (hq.trans hpre)
  have hstart : ∀ pre, pre <+: chunks → pre.flatten <+: coding.stream (responseMessages R rsps) := by
    rintro pre ⟨post, rfl⟩
    rw [List.flatten_append] at hchunks
    exact (List.prefix_append _ _).trans hchunks
  have hdown : ∀ pre xs, pre ++ [xs] <+: chunks → (∀ q, q <+: pre → EndsClean R rsps q.flatten) →
      ¬ EndsClean R rsps (pre ++ [xs]).flatten →
      Runs.run TcpClient.read (TcpClient.new junkOut junkIn) (pre ++ [xs]) = .error .outOfBounds :=
    fun pre xs hpre hclean hend => overrun_of_unclean h hsize (hne' _ hpre) (hfit' _ hpre) (hstart _ hpre)
      hclean hend junkOut junkIn
  refine ⟨⟨fun hall pre => ?_, fun hclean pre hpre => ?_⟩, hdown⟩
  · -- the first read that does not end clean would have taken the agent down
    suffices hall' : pre <+: chunks → ∀ q, q <+: pre → EndsClean R rsps q.flatten from
      fun hpre => hall' hpre pre (List.prefix_refl _)
    induction pre using List.reverseRecOn with
    | nil =>
      intro _ q hq
      rw [List.prefix_nil.1 hq]
      unfold EndsClean messageHeadLen
      simp
    | append_singleton pre xs ih =>
      intro hpre q hq
      have hbefore := ih ((List.prefix_append pre [xs]).trans hpre)
      rcases List.prefix_concat_iff.1 hq with rfl | hq
      · by_contra hend
        obtain ⟨u, hu, -⟩ := hall _ hpre
        rw [hdown pre xs hpre hbefore hend] at hu
        cases hu
      · exact hbefore q hq
  · obtain ⟨c, hc, htook⟩ := took_of_clean h hsize (hne' pre hpre) (hfit' pre hpre) (hstart pre hpre)
      (fun q hq => hclean q (hq.trans hpre)) junkOut junkIn
    exact ⟨c, hc, took_responses h hsize htook (hstart pre hpre)⟩

/-- The bytes of a response with one host. -/
def oneResponse : List UInt8 := [2, 0, 0, 0, 10, 0, 0, 0, 8, 1, 16, 2, 26, 4, 8, 5, 16, 80]

theorem oneResponse_eq : coding.stream (responseMessages Varint.base128 [⟨1, 2, [⟨5, 80⟩]⟩]) = oneResponse := by
  decide

/-- One read always fits. -/
theorem fitsClient_one {xs : List UInt8} (hle : (xs.length : ℤ) ≤ TcpClient.bufSize) : FitsClient [xs] := by
  intro pre ys hpre
  have hnil : pre = [] := by
    have hlen := hpre.length_le
    rw [List.length_append, List.length_singleton, List.length_singleton] at hlen
    exact List.length_eq_zero_iff.1 (by omega)
  subst hnil
  have hys : ys = xs := by simpa using hpre
  rw [hys, List.flatten_nil, parse_nil]
  exact (Int.add_zero _).trans_le hle

/-- One response, in one read; and a first read of its head and one byte more. -/
theorem responses_applied_whole :
    let rsps : List GetRouteResponse := [⟨1, 2, [⟨5, 80⟩]⟩]
    let client := TcpClient.new (fun _ => 0) fun _ => 0
    Runs.Always TcpClient.read (fun pre c => GotResponses Varint.base128 rsps pre.flatten c) client [oneResponse] ∧
      Runs.run TcpClient.read client [oneResponse.take 9] = .error .outOfBounds := by
  intro rsps client
  have hempty : EndsClean Varint.base128 rsps [] := by
    unfold EndsClean
    decide
  constructor
  · refine (responses_applied_iff Varint.base128_lawful rsps [oneResponse] (by decide) (by decide)
      (fitsClient_one (by decide)) ?_ _ _).1.2 ?_
    · rw [oneResponse_eq]
      exact List.prefix_refl _
    · intro pre hpre
      rcases List.prefix_cons_iff.1 hpre with rfl | ⟨t, rfl, ht⟩
      · exact hempty
      · rw [List.prefix_nil.1 ht]
        unfold EndsClean
        decide
  · refine (responses_applied_iff Varint.base128_lawful rsps [oneResponse.take 9] (by decide) (by decide)
      (fitsClient_one (by decide)) ?_ _ _).2 [] _ (List.prefix_refl _) ?_ ?_
    · rw [oneResponse_eq]
      exact List.take_prefix 9 oneResponse
    · intro q hq
      rw [List.prefix_nil.1 hq]
      exact hempty
    · unfold EndsClean
      decide

end LbRpc
