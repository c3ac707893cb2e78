import LbRpc.Base.Runs
import LbRpc.Proof.ClientSteps

/-!
# What a client has registered

Between two callbacks a client should wait for something: for messages on a connection, or
for the result of a `connect`.

* `ClientLoop.Registered`: it does.
* `ClientLoop.Attached`: the entry of its socket in the loop, which implies that.
* `ClientLoop.registered_iff`: a client waits for something throughout a run **if and only
  if** its constructor does not find `connected` set while its `connect` is in progress, no
  delayed `connect` fails, and `do_write` does not finish on a socket that is not connected.
* `ClientLoop.registered_fails`: a refused connection.
-/

namespace LbRpc

namespace ClientLoop

variable {s s' : ClientLoop} {ev : IOEvent ClientCallback} {e : Option (IOEvent ClientCallback)} {m : Message}

/-- **A connected client waits for `EPOLLIN`, one that is not connected for the result of its
`connect`**: the callback is in the table, and the kernel has the mask. -/
def Registered (s : ClientLoop) : Prop :=
  (s.client.connected = true → ∃ ev, s.loop.ioEvs s.sockfd = some ev ∧
    s.loop.epoll s.sockfd = some ev.mask ∧ ev.mask.epollin = true ∧
    ev.readCallback = some .readCallback) ∧
  (s.client.connected = false → ∃ ev, s.loop.ioEvs s.sockfd = some ev ∧
    s.loop.epoll s.sockfd = some ev.mask ∧ ev.mask.epollout = true ∧
    ev.writeCallback = some .connectionDelay)

/-- The entry that goes with the state of a client. -/
structure Entry (c : TcpClient) (ev : IOEvent ClientCallback) : Prop where
  connected : c.connected = true → ev.mask = ⟨true, decide (c.obuf.length ≠ 0)⟩ ∧
    ev.readCallback = some .readCallback ∧ (c.obuf.length ≠ 0 → ev.writeCallback = some .writeCallback)
  connecting : c.connected = false → ev = ⟨.out, none, some .connectionDelay⟩

/-- **The loop has the entry that the client needs**, and no other. -/
structure Attached (s : ClientLoop) : Prop where
  sockfd : s.sockfd ≠ -1
  entry : ∃ ev, s.loop.Only s.sockfd (some ev) ∧ Entry s.client ev
  output : Output s.client.obuf s.writing

theorem Attached.registered (h : Attached s) : Registered s := by
  obtain ⟨ev, honly, hentry⟩ := h.entry
  constructor
  · intro hc
    obtain ⟨hmask, hread, -⟩ := hentry.connected hc
    exact ⟨ev, honly.entry, honly.epoll, by rw [hmask], hread⟩
  · intro hc
    have hev := hentry.connecting hc
    refine ⟨ev, honly.entry, honly.epoll, ?_, ?_⟩ <;> rw [hev]
    rfl

/-- Without an entry a client waits for nothing. -/
theorem not_registered (h : s.loop.ioEvs s.sockfd = none) : ¬Registered s := by
  rintro ⟨hin, hout⟩
  cases hc : s.client.connected with
  | true =>
    obtain ⟨ev, hev, -⟩ := hin hc
    rw [h] at hev
    cases hev
  | false =>
    obtain ⟨ev, hev, -⟩ := hout hc
    rw [h] at hev
    cases hev

/-! ## Making a connection -/

/-- A connection is made: the read callback is still to come, the write callback is there if
the hook has sent something. -/
structure Opening (s : ClientLoop) : Prop where
  sockfd : s.sockfd ≠ -1
  connected : s.client.connected = true
  output : Output s.client.obuf s.writing
  entry : s.loop.Only s.sockfd none ∨
    (s.loop.Only s.sockfd (some ⟨.out, none, some .writeCallback⟩) ∧ s.client.obuf.length ≠ 0)

theorem Opening.send (h : Opening s) (m : Message) : ∃ s', s.sendMessage m = .ok s' ∧ Opening s' := by
  obtain ⟨os, hos⟩ := h.output.holds
  rcases sendMessage_cases hos h.output.head h.connected m with heq | ⟨obuf, hh, hz, hne, heq⟩
  · exact ⟨s, heq, h⟩
  · refine ⟨_, heq, h.sockfd, h.connected, ⟨⟨_, hh⟩, hz, fun _ => hne⟩, ?_⟩
    by_cases hl : s.client.obuf.length = 0
    · -- the first message after all were written asks for `EPOLLOUT`
      have hnone := h.entry.resolve_right fun hsome => hsome.2 hl
      have hadd := hnone.add .writeCallback (Or.inr rfl)
      simp only [hl, if_true]
      exact Or.inr ⟨hadd, hne⟩
    · simp only [hl, if_false]
      exact h.entry.imp_right fun hsome => ⟨hsome.1, hne⟩

/-- What every message keeps, a hook that sends several keeps. -/
theorem sendAll_inv {P : ClientLoop → Prop}
    (hP : ∀ {s : ClientLoop}, P s → ∀ m, ∃ s', s.sendMessage m = .ok s' ∧ P s') :
    ∀ (ms : List Message) {s : ClientLoop}, P s → ∃ s', s.sendAll ms = .ok s' ∧ P s' := by
  intro ms
  induction ms with
  | nil => exact fun h => ⟨_, rfl, h⟩
  | cons m ms ih =>
    intro s h
    obtain ⟨t, ht, hP'⟩ := hP h m
    obtain ⟨u, hu, hP''⟩ := ih hP'
    refine ⟨u, ?_, hP''⟩
    unfold ClientLoop.sendAll
    rw [ht]
    exact hu

theorem Opening.sendAll (ms : List Message) (h : Opening s) : ∃ s', s.sendAll ms = .ok s' ∧ Opening s' :=
  sendAll_inv Opening.send ms h

/-- **A connection that is made is waited on**, also for the bytes that were left. -/
theorem established_attached (hfd : s.sockfd ≠ -1) (ho : Output s.client.obuf s.writing)
    (hnone : s.loop.Only s.sockfd none) (starting : List Message) :
    ∃ s', s.established starting = .ok s' ∧ Attached s' := by
  have hopen : Opening { s with client := { s.client with connected := true } } :=
    ⟨hfd, rfl, ho, Or.inl hnone⟩
  obtain ⟨t, ht, hopen'⟩ := Opening.sendAll starting hopen
  unfold established
  rw [ht]
  refine ⟨_, rfl, hopen'.sockfd, ?_, hopen'.output⟩
  have hcon := hopen'.connected
  -- `EPOLLOUT` is asked for again when bytes of the last connection are left
  by_cases hl : t.client.obuf.length = 0
  · have hread := (hopen'.entry.resolve_right fun hsome => hsome.2 hl).add .readCallback (Or.inl rfl)
    simp only [hl, ne_eq, not_true_eq_false, if_false]
    refine ⟨_, hread, fun _ => ⟨?_, rfl, fun hne => absurd hl hne⟩, fun hfalse => ?_⟩
    · rw [hl]
      rfl
    · exact absurd (hfalse.symm.trans hcon) Bool.false_ne_true
  · simp only [hl, ne_eq, not_false_eq_true, if_true]
    have hmask : (⟨true, decide (t.client.obuf.length ≠ 0)⟩ : EventMask) = ⟨true, true⟩ := by
      rw [decide_eq_true hl]
    rcases hopen'.entry with hnone' | ⟨hsome, -⟩
    · have hread := hnone'.add .readCallback (Or.inl rfl)
      have hwrite := hread.add .writeCallback (Or.inr rfl)
      exact ⟨_, hwrite, fun _ => ⟨hmask.symm, rfl, fun _ => rfl⟩,
        fun hfalse => absurd (hfalse.symm.trans hcon) Bool.false_ne_true⟩
    · have hread := hsome.add .readCallback (Or.inl rfl)
      have hwrite := hread.add .writeCallback (Or.inr rfl)
      exact ⟨_, hwrite, fun _ => ⟨hmask.symm, rfl, fun _ => rfl⟩,
        fun hfalse => absurd (hfalse.symm.trans hcon) Bool.false_ne_true⟩

/-- **A client that dials waits for something**, or the process ends. Only `connected` must not
be set when the `connect` is in progress. -/
theorem doConnect_attached (ho : Output s.client.obuf s.writing) (hnone : s.loop.Only s.sockfd none) (socket : Fd)
    (result : ConnectResult) (starting : List Message)
    (hc : result = .inProgress → s.client.connected = false) :
    (∃ s', s.doConnect socket result starting = .ok s' ∧ Attached s') ∨
      s.doConnect socket result starting = .error .exit := by
  -- the socket from before is closed first, if there was one
  have hloop : EventLoop.Only (if s.sockfd ≠ -1 then s.loop.closed s.sockfd else s.loop) socket none := by
    split
    · exact hnone.closed.move socket
    · exact hnone.move socket
  unfold doConnect
  dsimp only
  split
  · exact Or.inr rfl
  rename_i hfd
  cases result with
  | connected =>
    left
    exact established_attached (s := { s with
      loop := if s.sockfd ≠ -1 then s.loop.closed s.sockfd else s.loop, sockfd := socket })
      hfd ho hloop starting
  | inProgress =>
    -- `connected` is not written here, so an old value of it stays
    have hdelay := hloop.add .connectionDelay (Or.inr rfl)
    refine Or.inl ⟨_, rfl, hfd, ⟨_, hdelay, fun htrue => ?_, fun _ => rfl⟩, ho⟩
    exact absurd ((hc rfl).symm.trans htrue) Bool.false_ne_true
  | failed => exact Or.inr rfl

/-- `clean_conn` leads from any entry of the old socket to that of the next one. -/
theorem cleanConn_attached (hfd : s.sockfd ≠ -1) (ho : Output s.client.obuf s.writing)
    (honly : s.loop.Only s.sockfd e) (d : Dial) :
    (∃ s', s.cleanConn d = .ok s' ∧ Attached s') ∨ ∃ f, s.cleanConn d = .error f := by
  have hloop : EventLoop.Only
      (if s.sockfd ≠ -1 then (s.loop.delIoEvent s.sockfd).closed s.sockfd else s.loop) s.sockfd none := by
    rw [if_pos hfd]
    exact honly.del.closed
  unfold cleanConn
  dsimp only
  rw [sendAll_refused rfl]
  rcases doConnect_attached (s := { s with
      loop := if s.sockfd ≠ -1 then (s.loop.delIoEvent s.sockfd).closed s.sockfd else s.loop
      client := { s.client.cleanConn with calls := [] }
      past := s.conns
      written := []
      reads := [] }) ho hloop d.socket d.connect d.starting fun _ => rfl with hok | hexit
  · exact Or.inl hok
  · exact Or.inr ⟨_, hexit⟩

/-! ## Every step -/

theorem Attached.send (h : Attached s) (m : Message) : ∃ s', s.sendMessage m = .ok s' ∧ Attached s' := by
  obtain ⟨ev, honly, hentry⟩ := h.entry
  cases hc : s.client.connected with
  | false => exact ⟨s, sendMessage_refused hc m, h⟩
  | true =>
    obtain ⟨os, hos⟩ := h.output.holds
    rcases sendMessage_cases hos h.output.head hc m with heq | ⟨obuf, hh, hz, hne, heq⟩
    · exact ⟨s, heq, h⟩
    · obtain ⟨hmask, hread, hwrite⟩ := hentry.connected hc
      have hboth : (⟨true, decide (obuf.length ≠ 0)⟩ : EventMask) = ⟨true, true⟩ := by
        rw [decide_eq_true hne]
      refine ⟨_, heq, h.sockfd, ?_, ⟨_, hh⟩, hz, fun _ => hne⟩
      by_cases hl : s.client.obuf.length = 0
      · -- `need_add_event`: the buffer was empty
        have hadd := honly.add .writeCallback (Or.inr rfl)
        simp only [hl, if_true]
        refine ⟨_, hadd, fun _ => ⟨?_, hread, fun _ => rfl⟩,
          fun hfalse => absurd (hfalse.symm.trans hc) Bool.false_ne_true⟩
        show ev.mask.union .out = _
        rw [hmask, hboth]
        exact congrArg _ (Bool.or_true _)
      · simp only [hl, if_false]
        refine ⟨ev, honly, fun _ => ⟨?_, hread, fun _ => hwrite hl⟩,
          fun hfalse => absurd (hfalse.symm.trans hc) Bool.false_ne_true⟩
        rw [hmask, hboth, decide_eq_true hl]

theorem Attached.sendAll (ms : List Message) (h : Attached s) :
    ∃ s', s.sendAll ms = .ok s' ∧ Attached s' :=
  sendAll_inv Attached.send ms h

/-- **`do_read`** ends with the connection it had, or with the next one. -/
theorem Attached.doRead (h : Attached s) (fuel : ℕ) (o : Meets) :
    (∃ s', s.doRead fuel o = .ok s' ∧ Attached s') ∨ ∃ f, s.doRead fuel o = .error f := by
  obtain ⟨ev, honly, hentry⟩ := h.entry
  unfold ClientLoop.doRead
  rcases hd : s.client.doRead fuel o.fionread o.got with f | client
  · exact Or.inr ⟨_, rfl⟩
  obtain ⟨hcon, hobuf⟩ := TcpClient.doRead_keeps hd
  have ho : Output client.obuf s.writing := hobuf ▸ h.output
  dsimp only
  cases hcon' : client.connected with
  | false => exact cleanConn_attached (s := { s with client := client }) h.sockfd ho honly o.dial
  | true =>
    have hentry' : Entry client ev := by
      refine ⟨fun _ => ?_, fun hfalse => absurd (hfalse.symm.trans hcon') Bool.false_ne_true⟩
      rw [hobuf]
      exact hentry.connected hcon
    rw [if_neg fun hfalse => Bool.false_ne_true hfalse.symm]
    split
    · exact Or.inl (Attached.sendAll _ ⟨h.sockfd, ⟨ev, honly, hentry'⟩, ho⟩)
    · exact Or.inl ⟨_, rfl, h.sockfd, ⟨ev, honly, hentry'⟩, ho⟩

/-- `do_write` is done: the callback for `EPOLLIN` stays. -/
theorem endWrite_attached (hfd : s.sockfd ≠ -1) (ho : Output s.client.obuf false)
    (honly : s.loop.Only s.sockfd (some ev)) (hc : s.client.connected = true)
    (hl : s.client.obuf.length = 0) (hin : ev.mask.epollin = true)
    (hread : ev.readCallback = some .readCallback) : Attached s.endWrite := by
  have hleft : ev.mask.diff .out = ⟨true, false⟩ := by
    show (⟨ev.mask.epollin && !false, ev.mask.epollout && !true⟩ : EventMask) = _
    rw [hin, Bool.not_true, Bool.and_false]
    rfl
  have hdel := honly.delMask .out (by rw [hleft]; decide)
  refine ⟨hfd, ?_, ho⟩
  unfold endWrite
  simp only [hl, if_true]
  refine ⟨_, hdel, fun _ => ⟨?_, hread, fun hne => absurd hl hne⟩,
    fun hfalse => absurd (hfalse.symm.trans hc) Bool.false_ne_true⟩
  rw [hl]
  exact hleft

/-- A `write` on a connection, or one that leaves bytes, leaves the entry that is needed. -/
theorem Attached.wrote (h : Attached s) (hw : s.writing = true) {room : ℕ}
    (hroom : s.client.connected = false → (room : ℤ) < s.client.obuf.length) :
    ∃ s', s.write (.wrote room) = .ok s' ∧ Attached s' := by
  obtain ⟨ev, honly, hentry⟩ := h.entry
  obtain ⟨os, hos⟩ := h.output.holds
  have hlen := hos.length
  have hne := h.output.writing hw
  rcases write_wrote hos room with ⟨hnil, heq⟩ | ⟨obuf, hh, hz, -, heq⟩
  · refine ⟨_, heq, h.sockfd, ⟨ev, ?_, hentry⟩, h.output.holds, h.output.head, fun hfalse => by cases hfalse⟩
    unfold endWrite
    simp only [hne, if_false]
    exact honly
  · have hlen' := hh.length
    rw [List.length_drop] at hlen'
    refine ⟨_, heq, ?_⟩
    unfold whileWrite
    by_cases hl : obuf.length = 0
    · -- the last byte is gone, and `del_io_event` takes the write callback
      rw [if_pos hl]
      have hc : s.client.connected = true := by
        cases hc : s.client.connected with
        | true => rfl
        | false =>
          have hlt := hroom hc
          omega
      obtain ⟨hmask, hread, -⟩ := hentry.connected hc
      exact endWrite_attached (s := { s with
        client := { s.client with obuf := obuf }
        written := s.written ++ os.take room }) h.sockfd ⟨⟨_, hh⟩, hz, fun hfalse => by cases hfalse⟩ honly hc hl
        (by rw [hmask]) hread
    · rw [if_neg hl]
      refine ⟨h.sockfd, ⟨ev, honly, fun hc => ?_, hentry.connecting⟩, ⟨_, hh⟩, hz, fun _ => hl⟩
      obtain ⟨hmask, hread, hwrite⟩ := hentry.connected hc
      refine ⟨?_, hread, fun _ => hwrite hne⟩
      rw [hmask, decide_eq_true hne]
      exact congrArg _ (decide_eq_true hl).symm

/-- **A `write` that takes the last byte** takes the entry of a socket that is not connected. -/
theorem Attached.drained (h : Attached s) (hw : s.writing = true) (hc : s.client.connected = false)
    {room : ℕ} (hroom : s.client.obuf.length ≤ (room : ℤ)) :
    ∃ s', s.write (.wrote room) = .ok s' ∧ s'.writing = false ∧ ¬Registered s' := by
  obtain ⟨ev, honly, hentry⟩ := h.entry
  obtain ⟨os, hos⟩ := h.output.holds
  have hlen := hos.length
  have hne := h.output.writing hw
  rcases write_wrote hos room with ⟨hnil, -⟩ | ⟨obuf, hh, -, -, heq⟩
  · have hzero := congrArg List.length hnil
    rw [List.length_take, List.length_nil] at hzero
    omega
  · have hlen' := hh.length
    rw [List.length_drop] at hlen'
    have hl : obuf.length = 0 := by omega
    refine ⟨_, heq, ?_, ?_⟩
    · unfold whileWrite
      rw [if_pos hl]
      rfl
    · unfold whileWrite
      rw [if_pos hl]
      -- `EPOLLOUT` was all that the entry of this socket had
      refine not_registered ?_
      unfold endWrite
      simp only [hl, if_true]
      refine (honly.delMask_all ?_).entry
      rw [hentry.connecting hc]
      rfl

/-- A connection that fails in `write` makes way for the next one. -/
theorem Attached.failed (h : Attached s) (hw : s.writing = true) (d : Dial) :
    (∃ s', s.write (.failed d) = .ok s' ∧ Attached s') ∨ ∃ f, s.write (.failed d) = .error f := by
  obtain ⟨ev, honly, -⟩ := h.entry
  unfold write
  rcases cleanConn_attached h.sockfd h.output honly d with ⟨t, ht, hatt⟩ | ⟨f, hf⟩
  · left
    dsimp only
    rw [ht]
    refine ⟨_, rfl, ?_⟩
    unfold whileWrite
    -- the bytes that are still to be written keep the loop going
    have hmore : t.client.obuf.length ≠ 0 := hatt.output.writing ((cleanConn_sent ht).writing.trans hw)
    rw [if_neg hmore]
    exact hatt
  · right
    dsimp only
    rw [hf]
    exact ⟨f, rfl⟩

/-- A delayed `connect` that has succeeded. -/
theorem Attached.delay (h : Attached s) (starting : List Message) :
    ∃ s', s.connectionDelay 0 starting = .ok s' ∧ Attached s' := by
  obtain ⟨ev, honly, -⟩ := h.entry
  exact established_attached (s := { s with loop := s.loop.delIoEvent s.sockfd }) h.sockfd h.output
    honly.del starting

/-- **A delayed `connect` that has failed** leaves nothing to wait for. -/
theorem Attached.refused (h : Attached s) {soError : ℤ} (herr : soError ≠ 0) (starting : List Message) :
    ∃ s', s.connectionDelay soError starting = .ok s' ∧ s'.writing = s.writing ∧ ¬Registered s' := by
  obtain ⟨ev, honly, -⟩ := h.entry
  unfold connectionDelay
  rw [if_neg herr]
  exact ⟨_, rfl, rfl, not_registered honly.del.entry⟩

/-- The callbacks of a client that is not connected. -/
theorem Attached.callback_connecting (h : Attached s) (hc : s.client.connected = false) {f : Fired}
    (hf : s.loop.fires s.sockfd f = true) :
    f ≠ .epollin ∧ s.loop.callback s.sockfd f = .ok (some .connectionDelay) := by
  obtain ⟨ev, honly, hentry⟩ := h.entry
  have hev := hentry.connecting hc
  subst hev
  unfold EventLoop.fires at hf
  unfold EventLoop.callback
  rw [honly.epoll] at hf
  rw [honly.entry]
  cases f with
  | epollin => cases hf
  | epollout => exact ⟨fun heq => (by cases heq), rfl⟩
  | error => exact ⟨fun heq => (by cases heq), rfl⟩

/-- The callbacks of a connected client: `write_callback` runs when there is something to write. -/
theorem Attached.callback_connected (h : Attached s) (hc : s.client.connected = true) {f : Fired}
    (hf : s.loop.fires s.sockfd f = true) :
    s.loop.callback s.sockfd f = .ok (some .readCallback) ∨
      (s.loop.callback s.sockfd f = .ok (some .writeCallback) ∧ s.client.obuf.length ≠ 0) := by
  obtain ⟨ev, honly, hentry⟩ := h.entry
  obtain ⟨hmask, hread, hwrite⟩ := hentry.connected hc
  unfold EventLoop.fires at hf
  unfold EventLoop.callback
  rw [honly.epoll] at hf
  rw [honly.entry]
  dsimp only [Option.map_some] at hf ⊢
  rw [hread]
  cases f with
  | epollin => exact Or.inl rfl
  | epollout =>
    have hne : s.client.obuf.length ≠ 0 := by
      rw [hmask] at hf
      exact of_decide_eq_true hf
    dsimp only
    rw [hwrite hne]
    exact Or.inr ⟨rfl, hne⟩
  | error => exact Or.inl rfl

/-- **The steps that leave a client waiting**: a delayed `connect` succeeds, and no `write`
takes the last byte while a `connect` is in progress. -/
def KeepsTrying (s : ClientLoop) : Event → Prop
  | .send _ => True
  | .fired f o => s.writing = false → s.client.connected = false → f ≠ .epollin → o.soError = 0
  | .write (.wrote room) => s.writing = true → s.client.connected = false →
    (room : ℤ) < s.client.obuf.length
  | .write (.failed _) => True

instance (s : ClientLoop) : (e : Event) → Decidable (s.KeepsTrying e)
  | .send _ => isTrue trivial
  | .fired f o => inferInstanceAs
    (Decidable (s.writing = false → s.client.connected = false → f ≠ .epollin → o.soError = 0))
  | .write (.wrote room) => inferInstanceAs
    (Decidable (s.writing = true → s.client.connected = false → (room : ℤ) < s.client.obuf.length))
  | .write (.failed _) => isTrue trivial

theorem Attached.step (h : Attached s) (fuel : ℕ) {e : Event} (he : s.KeepsTrying e) :
    (∃ s', s.step fuel e = .ok s' ∧ Attached s') ∨ ∃ f, s.step fuel e = .error f := by
  cases e with
  | send m =>
    unfold ClientLoop.step
    dsimp only
    split
    · exact Or.inl ⟨s, rfl, h⟩
    · exact Or.inl (h.send m)
  | fired f o =>
    unfold ClientLoop.step
    dsimp only
    split
    · rename_i hfire
      unfold fire
      -- which callback runs is decided by the entry, and the entry by `connected`
      cases hc : s.client.connected with
      | false =>
        obtain ⟨hin, hcall⟩ := h.callback_connecting hc hfire.2
        rw [hcall]
        dsimp only
        rw [he hfire.1 hc hin]
        exact Or.inl (h.delay o.dial.starting)
      | true =>
        rcases h.callback_connected hc hfire.2 with hcall | ⟨hcall, hne⟩
        · rw [hcall]
          exact h.doRead fuel o
        · rw [hcall]
          dsimp only
          unfold doWrite
          rw [if_pos ⟨h.output.head, hne⟩]
          exact Or.inl ⟨_, rfl, h.sockfd, h.entry, h.output.holds, h.output.head, fun _ => hne⟩
    · exact Or.inl ⟨s, rfl, h⟩
  | write o =>
    unfold ClientLoop.step
    dsimp only
    split
    · rename_i hw
      cases o with
      | wrote room => exact Or.inl (h.wrote hw (he hw))
      | failed d => exact h.failed hw d
    · exact Or.inl ⟨s, rfl, h⟩

/-- Any other step leaves the client with nothing to wait for. -/
theorem Attached.step_bad (h : Attached s) (fuel : ℕ) {e : Event} (he : ¬s.KeepsTrying e) :
    ∃ s', s.step fuel e = .ok s' ∧ s'.writing = false ∧ ¬Registered s' := by
  cases e with
  | send m => exact absurd trivial he
  | fired f o =>
    have hneed : s.writing = false ∧ s.client.connected = false ∧ f ≠ .epollin ∧ o.soError ≠ 0 := by
      unfold KeepsTrying at he
      push Not at he
      exact he
    obtain ⟨hw, hc, hin, herr⟩ := hneed
    obtain ⟨ev, honly, hentry⟩ := h.entry
    have hfire : s.loop.fires s.sockfd f = true := by
      unfold EventLoop.fires
      rw [honly.epoll, hentry.connecting hc]
      cases f with
      | epollin => exact absurd rfl hin
      | epollout => rfl
      | error => rfl
    obtain ⟨s', hs', hwriting, hnot⟩ := h.refused herr o.dial.starting
    refine ⟨s', ?_, hwriting.trans hw, hnot⟩
    unfold ClientLoop.step
    dsimp only
    rw [if_pos ⟨hw, hfire⟩, fire, (h.callback_connecting hc hfire).2]
    exact hs'
  | write o =>
    cases o with
    | wrote room =>
      have hneed : s.writing = true ∧ s.client.connected = false ∧ s.client.obuf.length ≤ (room : ℤ) := by
        unfold KeepsTrying at he
        push Not at he
        exact he
      obtain ⟨hw, hc, hroom⟩ := hneed
      unfold ClientLoop.step
      dsimp only
      rw [if_pos hw]
      exact h.drained hw hc hroom
    | failed d => exact absurd trivial he

/-! ## Every run -/

variable {connected : Bool} {junkOut junkIn : ℤ → UInt8} {socket : Fd} {result : ConnectResult}

theorem construct_attached (h : construct connected junkOut junkIn socket result = .ok s)
    (hc : result = .inProgress → connected = false) : Attached s := by
  have ho : Output (IOBuf.new TcpClient.bufSize junkOut) false :=
    ⟨⟨[], IOBuf.holds_new (by decide) junkOut⟩, rfl, fun hfalse => by cases hfalse⟩
  unfold construct at h
  rcases doConnect_attached (s := ⟨⟨connected, IOBuf.new TcpClient.bufSize junkOut,
    IOBuf.new TcpClient.bufSize junkIn, []⟩, -1, .new, false, [], [], [], []⟩) ho (EventLoop.only_new _)
    socket result [] hc with ⟨t, ht, hatt⟩ | hexit
  · rw [ht] at h
    cases h
    exact hatt
  · rw [hexit] at h
    cases h

/-- The constructor finds `connected` set and its `connect` is in progress. -/
theorem construct_not_registered (h : construct true junkOut junkIn socket .inProgress = .ok s) :
    s.writing = false ∧ ¬Registered s := by
  unfold construct doConnect at h
  dsimp only at h
  split at h
  · cases h
  cases h
  refine ⟨rfl, fun hreg => ?_⟩
  obtain ⟨ev, hev, -, -, hread⟩ := hreg.1 rfl
  have hentry := ((EventLoop.only_new socket).add ClientCallback.connectionDelay
    (Or.inr rfl)).entry
  have hsame := hentry.symm.trans hev
  cases hsame
  cases hread

/-- **A client waits for something between all callbacks exactly if** its constructor does not
find `connected` set while `connect` is in progress, and every step keeps it trying. -/
theorem registered_iff (fuel : ℕ) (es : List Event)
    (h : construct connected junkOut junkIn socket result = .ok s) :
    Runs.Throughout (step fuel) (fun _ s => s.writing = false → Registered s) s es ↔
      (result = .inProgress → connected = false) ∧
        Runs.Along (step fuel) (fun _ s e => s.KeepsTrying e) s es := by
  rw [Runs.throughout_iff_upTo]
  by_cases hc : result = .inProgress → connected = false
  · have hiff : Runs.AlwaysUpTo (fun _ => True) (step fuel) (fun _ s => s.writing = false → Registered s) s es ↔
        Runs.Along (step fuel) (fun _ s e => s.KeepsTrying e) s es := by
      refine Runs.alwaysUpTo_iff (Q := fun _ s => Attached s) (fun _ t hatt _ => hatt.registered)
        (construct_attached h hc) (fun pre e _ t _ hatt he => ?_) fun pre e _ t _ hatt hstep => ?_
      · exact (hatt.step fuel he).imp_right fun ⟨f, hf⟩ => ⟨f, hf, trivial⟩
      · by_contra hbad
        obtain ⟨u, hu, hw, hnot⟩ := hatt.step_bad fuel hbad
        rcases hstep with ⟨v, hv, hP⟩ | ⟨f, hf, -⟩
        · rw [hu] at hv
          cases hv
          exact hnot (hP hw)
        · rw [hu] at hf
          cases hf
    rw [hiff]
    exact ⟨fun hes => ⟨hc, hes⟩, fun hes => hes.2⟩
  · -- the constructor alone breaks it, before any step
    push Not at hc
    obtain ⟨rfl, hconn⟩ := hc
    have htrue : connected = true := Bool.eq_true_of_not_eq_false hconn
    subst htrue
    obtain ⟨hw, hnot⟩ := construct_not_registered h
    constructor
    · intro hall
      rcases hall [] List.nil_prefix with ⟨t, ht, hP⟩ | ⟨f, hf, -⟩
      · cases ht
        exact absurd (hP hw) hnot
      · cases hf
    · exact fun hes => absurd (hes.1 rfl) hconn

/-- The next `connect` is in progress; no hook sends anything. -/
def redial : Dial := ⟨[], 7, .inProgress, []⟩

/-- A message is cut in two: the connection fails behind its third byte, and the rest goes to
the next one when that is made. -/
def failInWrite : List Event :=
  [.send ⟨1, [5]⟩, .fired .epollout ⟨none, none, [], 0, redial⟩, .write (.wrote 3), .write (.failed redial),
    .write (.wrote 0), .fired .epollout ⟨none, none, [], 0, redial⟩,
    .fired .epollout ⟨none, none, [], 0, redial⟩, .write (.wrote 100)]

theorem registered_iff_ok : ∃ s, construct true (fun _ => 0) (fun _ => 0) 7 .connected = .ok s ∧
    Runs.Throughout (step 10) (fun _ s => s.writing = false → Registered s) s failInWrite := by
  have hcheck : (match construct true (fun _ => 0) (fun _ => 0) 7 .connected with
      | .ok s => Runs.check (step 10) (fun s e => decide (s.KeepsTrying e)) s failInWrite
      | .error _ => false) = true := by decide +kernel
  split at hcheck
  · rename_i s hs
    refine ⟨s, hs, (registered_iff 10 failInWrite hs).2 ⟨fun heq => (by cases heq), ?_⟩⟩
    exact Runs.along_of_check hcheck fun _ _ _ h => of_decide_eq_true h
  · cases hcheck

/-- A client whose first `connect` is refused waits for nothing. -/
theorem registered_fails :
    ¬∀ (fuel : ℕ) (connected : Bool) (junkOut junkIn : ℤ → UInt8) (socket : Fd) (result : ConnectResult)
      (s : ClientLoop) (es : List Event), construct connected junkOut junkIn socket result = .ok s →
        Runs.Throughout (step fuel) (fun _ s => s.writing = false → Registered s) s es := by
  intro h
  have hall := h 10 false (fun _ => 0) (fun _ => 0) 7 .inProgress _
    [.fired .epollout ⟨none, none, [], 111, redial⟩] rfl
  exact not_registered rfl (hall _ (List.prefix_refl _) _ rfl rfl)

end ClientLoop

end LbRpc
