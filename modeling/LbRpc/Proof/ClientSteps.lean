import LbRpc.Proof.ServerStream
import LbRpc.Reactor.ClientLoop

/-!
# What the functions of a client do

One lemma for each function of the client that the proofs about its runs go by.

* `TcpClient.doRead_keeps`: `do_read` leaves the output side alone.
* `ClientLoop.sendMessage_cases`: a message is refused, or put behind the others.
* `ClientLoop.Sent`: what hooks and `do_connect` do to buffers and logs.
* `ClientLoop.write_wrote`: one `write`.
-/

namespace LbRpc

namespace TcpClient

variable {c c' : TcpClient}

/-- The decode loop leaves the output side alone. -/
theorem decode_keeps : ∀ (fuel : ℕ) (c c' : TcpClient), c.decode fuel = .ok c' →
    c'.connected = c.connected ∧ c'.obuf = c.obuf := by
  intro fuel
  induction fuel with
  | zero => intro c c' h; cases h
  | succ fuel ih =>
    intro c c' h
    unfold decode at h
    split at h
    · cases h
      exact ⟨rfl, rfl⟩
    · split at h
      · cases h
      · have hrest := ih _ c' h
        exact hrest

/-- `do_read` is for a connected client, and leaves the output side as it was. -/
theorem doRead_keeps {fuel : ℕ} {fionread : Option ℤ} {got : Option (List UInt8)}
    (h : c.doRead fuel fionread got = .ok c') : c.connected = true ∧ c'.obuf = c.obuf := by
  unfold doRead at h
  split at h
  · -- `assert(connected == true)`
    cases h
  rename_i hc
  have hcon : c.connected = true := Bool.eq_true_of_not_eq_false hc
  refine ⟨hcon, ?_⟩
  split at h
  · cases h
    rfl
  split at h
  · cases h
  split at h
  · cases h
    rfl
  split at h
  · cases h
    rfl
  split at h
  · cases h
  split at h
  · cases h
  split at h
  · cases h
  rename_i d hd
  split at h
  · cases h
  cases h
  exact (decode_keeps fuel _ d hd).2

/-- `send_message` leaves the input side alone. -/
theorem sendMessage_keeps {m : Message} {ret : ℤ} {add : Bool}
    (h : c.sendMessage m = .ok (ret, add, c')) : c'.ibuf = c.ibuf ∧ c'.calls = c.calls := by
  unfold sendMessage at h
  split at h
  · cases h
    exact ⟨rfl, rfl⟩
  dsimp only at h
  split at h
  · cases h
    exact ⟨rfl, rfl⟩
  split at h
  · cases h
  split at h
  · cases h
  cases h
  exact ⟨rfl, rfl⟩

end TcpClient

namespace ClientLoop

variable {s t u : ClientLoop} {m : Message}

/-- The output side of a client: its unread bytes start the buffer, and while `do_write` is
under way there are some. -/
structure Output (obuf : IOBuf) (writing : Bool) : Prop where
  holds : ∃ os, obuf.Holds os
  head : obuf.head = 0
  writing : writing = true → obuf.length ≠ 0

/-- **`send_message` on a connection** refuses the message, or puts it behind the others and
sees to it that they are written. -/
theorem sendMessage_cases {os : List UInt8} (hos : s.client.obuf.Holds os) (hz : s.client.obuf.head = 0)
    (hc : s.client.connected = true) (m : Message) :
    s.sendMessage m = .ok s ∨ ∃ obuf : IOBuf, obuf.Holds (os ++ coding.frame m) ∧ obuf.head = 0 ∧
      obuf.length ≠ 0 ∧ s.sendMessage m = .ok { s with
        client := { s.client with obuf := obuf }
        accepted := s.accepted ++ [m]
        loop := if s.client.obuf.length = 0 then s.loop.addIoEvent s.sockfd .writeCallback .out
          else s.loop } := by
  unfold sendMessage
  rcases TcpClient.sendMessage_ok hc hos hz m with ⟨hno, -⟩ | ⟨obuf, hyes, hh, hz', -⟩
  · rw [hno]
    exact Or.inl rfl
  · rw [hyes]
    refine Or.inr ⟨obuf, hh, hz', ?_, ?_⟩
    · have hlen := hh.length
      have h8 : (coding.frame m).length = messageHeadLen + m.data.length := List.length_append
      have hm : messageHeadLen = 8 := rfl
      rw [List.length_append] at hlen
      omega
    · simp

/-- Without a connection every message is refused. -/
theorem sendMessage_refused (hc : s.client.connected = false) (m : Message) : s.sendMessage m = .ok s := by
  unfold sendMessage TcpClient.sendMessage
  rw [if_pos hc]
  rfl

theorem sendAll_refused (hc : s.client.connected = false) : ∀ ms, s.sendAll ms = .ok s := by
  intro ms
  induction ms with
  | nil => rfl
  | cons m ms ih =>
    unfold sendAll
    rw [sendMessage_refused hc]
    exact ih

/-- **`t` is `s` after some calls of `send_message`**, with any socket and any callbacks. -/
structure Sent (s t : ClientLoop) : Prop where
  writing : t.writing = s.writing
  past : t.past = s.past
  written : t.written = s.written
  reads : t.reads = s.reads
  calls : t.client.calls = s.client.calls
  ibuf : t.client.ibuf = s.client.ibuf
  messages : ∀ os, s.client.obuf.Holds os → s.client.obuf.head = 0 → ∃ ms, t.accepted = s.accepted ++ ms ∧
    t.client.obuf.Holds (os ++ coding.stream ms) ∧ t.client.obuf.head = 0

theorem Sent.none (hwriting : t.writing = s.writing) (hpast : t.past = s.past) (hwritten : t.written = s.written)
    (hreads : t.reads = s.reads) (hcalls : t.client.calls = s.client.calls)
    (hibuf : t.client.ibuf = s.client.ibuf) (haccepted : t.accepted = s.accepted)
    (hobuf : t.client.obuf = s.client.obuf) : Sent s t := by
  refine ⟨hwriting, hpast, hwritten, hreads, hcalls, hibuf, fun os hos hz => ⟨[], ?_, ?_, ?_⟩⟩
  · rw [haccepted, List.append_nil]
  · rw [hobuf, Framing.Coding.stream_nil, List.append_nil]
    exact hos
  · rw [hobuf]
    exact hz

theorem Sent.trans (h : Sent s t) (h' : Sent t u) : Sent s u := by
  refine ⟨h'.writing.trans h.writing, h'.past.trans h.past, h'.written.trans h.written,
    h'.reads.trans h.reads, h'.calls.trans h.calls, h'.ibuf.trans h.ibuf, fun os hos hz => ?_⟩
  obtain ⟨ms, hacc, hh, hz'⟩ := h.messages os hos hz
  obtain ⟨ms', hacc', hh', hz''⟩ := h'.messages _ hh hz'
  refine ⟨ms ++ ms', ?_, ?_, hz''⟩
  · rw [hacc', hacc, List.append_assoc]
  · rw [Framing.Coding.stream_append, ← List.append_assoc]
    exact hh'

theorem sendMessage_sent (h : s.sendMessage m = .ok t) : Sent s t := by
  have hmessages : ∀ os, s.client.obuf.Holds os → s.client.obuf.head = 0 → ∃ ms,
      t.accepted = s.accepted ++ ms ∧ t.client.obuf.Holds (os ++ coding.stream ms) ∧
      t.client.obuf.head = 0 := by
    intro os hos hz
    have hnone : s.sendMessage m = .ok s → ∃ ms, t.accepted = s.accepted ++ ms ∧
        t.client.obuf.Holds (os ++ coding.stream ms) ∧ t.client.obuf.head = 0 := by
      intro heq
      rw [heq] at h
      cases h
      exact ⟨[], (List.append_nil _).symm, by rwa [Framing.Coding.stream_nil, List.append_nil], hz⟩
    cases hc : s.client.connected with
    | false => exact hnone (sendMessage_refused hc m)
    | true =>
      rcases sendMessage_cases hos hz hc m with heq | ⟨obuf, hh, hz', -, heq⟩
      · exact hnone heq
      · rw [heq] at h
        cases h
        refine ⟨[m], rfl, ?_, hz'⟩
        rw [Framing.Coding.stream_cons, Framing.Coding.stream_nil, List.append_nil]
        exact hh
  unfold sendMessage at h
  split at h
  · cases h
  rename_i ret add client hclient
  obtain ⟨hibuf, hcalls⟩ := TcpClient.sendMessage_keeps hclient
  cases h
  exact ⟨rfl, rfl, rfl, rfl, hcalls, hibuf, hmessages⟩

theorem sendAll_sent : ∀ (ms : List Message) {s : ClientLoop}, s.sendAll ms = .ok t → Sent s t := by
  intro ms
  induction ms with
  | nil =>
    intro s h
    cases h
    exact .none rfl rfl rfl rfl rfl rfl rfl rfl
  | cons m ms ih =>
    intro s h
    unfold sendAll at h
    split at h
    · cases h
    · rename_i u hu
      exact (sendMessage_sent hu).trans (ih h)

theorem established_sent {starting : List Message} (h : s.established starting = .ok t) : Sent s t := by
  unfold established at h
  split at h
  · cases h
  rename_i u hu
  have hsent := sendAll_sent starting hu
  cases h
  exact ⟨hsent.writing, hsent.past, hsent.written, hsent.reads, hsent.calls, hsent.ibuf, hsent.messages⟩

theorem doConnect_sent {socket : Fd} {result : ConnectResult} {starting : List Message}
    (h : s.doConnect socket result starting = .ok t) : Sent s t := by
  unfold doConnect at h
  dsimp only at h
  split at h
  · cases h
  cases result with
  | connected =>
    have hsent := established_sent h
    exact ⟨hsent.writing, hsent.past, hsent.written, hsent.reads, hsent.calls, hsent.ibuf, hsent.messages⟩
  | inProgress =>
    cases h
    exact .none rfl rfl rfl rfl rfl rfl rfl rfl
  | failed => cases h

/-- **`clean_conn`** puts the connection with those that were given up, and keeps both buffers. -/
theorem cleanConn_sent {d : Dial} (h : s.cleanConn d = .ok t) : Sent { s with
    client := { s.client.cleanConn with calls := [] }
    past := s.conns
    written := []
    reads := [] } t := by
  unfold cleanConn at h
  dsimp only at h
  -- what `_conn_close_cb` sends is refused: `connected` is false by now
  rw [sendAll_refused rfl] at h
  have hsent := doConnect_sent h
  exact ⟨hsent.writing, hsent.past, hsent.written, hsent.reads, hsent.calls, hsent.ibuf, hsent.messages⟩

/-- **One `write`** takes bytes off the front of the buffer. -/
theorem write_wrote {os : List UInt8} (hos : s.client.obuf.Holds os) (room : ℕ) :
    (os.take room = [] ∧ s.write (.wrote room) = .ok s.endWrite) ∨
      ∃ obuf : IOBuf, obuf.Holds (os.drop room) ∧ obuf.head = 0 ∧ obuf.capacity = s.client.obuf.capacity ∧
        s.write (.wrote room) = .ok ({ s with
          client := { s.client with obuf := obuf }
          written := s.written ++ os.take room } : ClientLoop).whileWrite := by
  have hlen : s.client.obuf.length.toNat = os.length := by rw [hos.length]; rfl
  have htake : os.take (min room os.length) = os.take room := List.take_eq_take_min.symm
  have hdrop : os.drop (os.take room).length = os.drop room := by
    rw [List.length_take]
    exact List.drop_eq_drop_min.symm
  have hpeek := hos.peek_take (Nat.min_le_right room os.length)
  rw [htake] at hpeek
  have hpop := hos.pop_drop (n := (os.take room).length) (by rw [List.length_take]; omega)
  rw [hdrop] at hpop
  obtain ⟨obuf, hadj, hh, hz, hcap⟩ := hpop.adjust
  unfold write
  dsimp only
  rw [hlen, hpeek]
  dsimp only
  by_cases hnil : os.take room = []
  · rw [if_pos hnil]
    exact Or.inl ⟨hnil, rfl⟩
  · rw [if_neg hnil, hadj]
    exact Or.inr ⟨obuf, hh, hz, hcap, rfl⟩

end ClientLoop

end LbRpc
