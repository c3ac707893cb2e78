import LbRpc.Base.Runs
import LbRpc.Proof.ClientSteps

/-!
# A client on its next connection

`clean_conn` clears neither buffer. What was not written yet is written to the next
connection, and what was not decoded yet stands in front of what the next one brings.

* `IOBuf.Same`: buffers with the same unread bytes, in any memory.
* `TcpClient.doRead_same`: `do_read` does the same with such buffers.
* `ClientLoop.separate_of_clean`: where every connection is given up at the end of a message
  in both directions, connections are separate: what is written begins with a message, and
  the router is called as a new client would call it for the same reads.
* `ClientLoop.separate_fails`: the rest of a message is what the next connection begins with.
-/

namespace LbRpc

namespace IOBuf

variable {b b' c : IOBuf} {bs : List UInt8}

/-- Buffers with the same unread bytes. -/
structure Same (b b' : IOBuf) : Prop where
  length : b'.length = b.length
  head : b'.head = b.head
  capacity : b'.capacity = b.capacity
  bytes : ∀ i, 0 ≤ i → i < b.head + b.length → b'.data i = b.data i

theorem Same.append (h : Same b b') (hz : b.head = 0) (hok : b.append bs = .ok c) :
    ∃ c', b'.append bs = .ok c' ∧ Same c c' := by
  unfold IOBuf.append at hok ⊢
  rw [h.length, h.capacity]
  split at hok
  · rename_i hfit
    cases hok
    rw [if_pos hfit]
    refine ⟨_, rfl, rfl, h.head, rfl, fun i hi hlt => ?_⟩
    have hlt' : i < b.head + (b.length + bs.length) := hlt
    refine Memory.write_congr bs b.length ?_
    rcases lt_or_ge i b.length with hold | hnew
    · exact Or.inr (h.bytes i hi (by omega))
    · exact Or.inl ⟨hnew, by omega⟩
  · cases hok

theorem Same.pop (h : Same b b') (len : ℤ) : Same (b.pop len) (b'.pop len) := by
  refine ⟨congrArg (· - len) h.length, congrArg (· + len) h.head, h.capacity, fun i hi hlt => ?_⟩
  have hlt' : i < b.head + len + (b.length - len) := hlt
  exact h.bytes i hi (by omega)

theorem Same.peek (h : Same b b') {n : ℕ} (hn : (n : ℤ) ≤ b.length) : b'.peek n = b.peek n := by
  unfold IOBuf.peek
  rw [h.head, h.capacity]
  split
  · rename_i hfit
    refine congrArg Except.ok (Memory.slice_congr n b.head fun q hp hq => ?_)
    exact h.bytes q (by omega) (by omega)
  · rfl

theorem Same.adjust (h : Same b b') (hok : b.adjust = .ok c) :
    ∃ c', b'.adjust = .ok c' ∧ Same c c' ∧ c.head = 0 ∧ c.length = b.length ∧ c.capacity = b.capacity := by
  unfold IOBuf.adjust at hok ⊢
  rw [h.head, h.length, h.capacity]
  split at hok
  · rename_i hhead
    rw [if_pos hhead]
    split at hok
    · rename_i hlen
      rw [if_pos hlen]
      split at hok
      · rename_i hfit
        cases hok
        rw [if_pos hfit]
        refine ⟨_, rfl, ⟨rfl, rfl, rfl, fun i hi hlt => ?_⟩, rfl, rfl, rfl⟩
        have hlt' : i < 0 + b.length := hlt
        -- both have moved the same bytes to the front
        have hmoved : Memory.slice b'.data b.head b.length.toNat =
            Memory.slice b.data b.head b.length.toNat :=
          Memory.slice_congr _ _ fun q hp hq => h.bytes q (by omega) (by omega)
        show Memory.write b'.data 0 (Memory.slice b'.data b.head b.length.toNat) i = _
        rw [hmoved]
        refine Memory.write_congr _ 0 (Or.inl ⟨hi, ?_⟩)
        rw [Memory.length_slice]
        omega
      · cases hok
    · rename_i hlen
      rw [if_neg hlen]
      cases hok
      refine ⟨_, rfl, ⟨rfl, rfl, rfl, fun i hi hlt => ?_⟩, rfl, rfl, rfl⟩
      have hlt' : i < 0 + b.length := hlt
      exact h.bytes i hi (by omega)
  · rename_i hhead
    rw [if_neg hhead]
    cases hok
    exact ⟨_, rfl, h, by omega, rfl, rfl⟩

end IOBuf

namespace TcpClient

variable {c c' d : TcpClient} {bs : List UInt8}

/-- Clients that have been called alike and have the same bytes left. -/
structure Same (c d : TcpClient) : Prop where
  connected : d.connected = c.connected
  calls : d.calls = c.calls
  ibuf : c.ibuf.Same d.ibuf

/-- A round of the decode loop, behind a head. -/
def round (hd : List UInt8) (c : TcpClient) : TcpClient :=
  let head := MsgHead.ofBytes hd
  let ibuf := c.ibuf.pop messageHeadLen
  { c with
    ibuf := ibuf.pop head.msglen.toInt
    calls := c.calls ++
      [⟨head.msgid, head.msglen, Memory.slice ibuf.data ibuf.head head.msglen.toInt.toNat⟩] }

theorem decode_round {fuel : ℕ} {hd : List UInt8} (hlong : ¬c.ibuf.length < messageHeadLen)
    (hpeek : c.ibuf.peek messageHeadLen = .ok hd) : c.decode (fuel + 1) = (c.round hd).decode fuel := by
  rw [decode, if_neg hlong, hpeek]
  rfl

/-- The end of the bytes stays where it is. -/
theorem round_end (c : TcpClient) (hd : List UInt8) :
    (c.round hd).ibuf.head + (c.round hd).ibuf.length = c.ibuf.head + c.ibuf.length := by
  show c.ibuf.head + messageHeadLen + _ + (c.ibuf.length - messageHeadLen - _) = _
  omega

/-- Where the body is there, both hand it out. -/
theorem Same.round (h : Same c d) {hd : List UInt8} (hhead : 0 ≤ c.ibuf.head)
    (hin : 0 ≤ (c.round hd).ibuf.length) : Same (c.round hd) (d.round hd) := by
  have hpop := h.ibuf.pop messageHeadLen
  have hin' : 0 ≤ c.ibuf.length - messageHeadLen - (MsgHead.ofBytes hd).msglen.toInt := hin
  refine ⟨h.connected, ?_, hpop.pop _⟩
  have hbody : Memory.slice (d.ibuf.pop messageHeadLen).data (d.ibuf.pop messageHeadLen).head
        (MsgHead.ofBytes hd).msglen.toInt.toNat =
      Memory.slice (c.ibuf.pop messageHeadLen).data (c.ibuf.pop messageHeadLen).head
        (MsgHead.ofBytes hd).msglen.toInt.toNat := by
    rw [hpop.head]
    refine Memory.slice_congr _ _ fun q hp hq => hpop.bytes q ?_ ?_
    · have hp' : c.ibuf.head + messageHeadLen ≤ q := hp
      omega
    · have hp' : c.ibuf.head + messageHeadLen ≤ q := hp
      have hq' : q < c.ibuf.head + messageHeadLen + (MsgHead.ofBytes hd).msglen.toInt.toNat := hq
      show q < c.ibuf.head + messageHeadLen + (c.ibuf.length - messageHeadLen)
      omega
  show d.calls ++ [_] = c.calls ++ [_]
  rw [h.calls, hbody]

/-- **The decode loop does the same** with the same unread bytes, unless it takes more than
there are. -/
theorem decode_same : ∀ (fuel : ℕ) {c d c' : TcpClient}, Same c d → c.decode fuel = .ok c' →
    c'.ibuf.head + c'.ibuf.length = c.ibuf.head + c.ibuf.length ∧ c'.ibuf.capacity = c.ibuf.capacity ∧
      (0 ≤ c'.ibuf.length → ∃ d', d.decode fuel = .ok d' ∧ Same c' d') := by
  intro fuel
  induction fuel with
  | zero => intro c d c' _ hok; cases hok
  | succ fuel ih =>
    intro c d c' h hok
    have hm : messageHeadLen = 8 := rfl
    by_cases hshort : c.ibuf.length < messageHeadLen
    · rw [decode, if_pos hshort] at hok
      cases hok
      refine ⟨rfl, rfl, fun _ => ⟨d, ?_, h⟩⟩
      rw [decode, h.ibuf.length, if_pos hshort]
    · rcases hpeek : c.ibuf.peek messageHeadLen with f | hd
      · rw [decode, if_neg hshort, hpeek] at hok
        cases hok
      · have hhead : 0 ≤ c.ibuf.head := by
          unfold IOBuf.peek at hpeek
          split at hpeek
          · rename_i hfit
            exact hfit.1
          · cases hpeek
        have hpeek' : d.ibuf.peek messageHeadLen = .ok hd := (h.ibuf.peek (by omega)).trans hpeek
        rw [decode_round hshort hpeek] at hok
        rw [decode_round (by rwa [h.ibuf.length]) hpeek', ← round_end c hd]
        rcases lt_or_ge (c.round hd).ibuf.length 0 with hover | hin
        · -- more than there is was taken, and the loop ends with the length below zero
          cases fuel with
          | zero => cases hok
          | succ fuel =>
            rw [decode, if_pos (by omega)] at hok
            cases hok
            exact ⟨rfl, rfl, fun hpos => absurd hpos (by omega)⟩
        · exact ih (h.round hhead hin) hok

/-- The ways through a `do_read` that keeps its connection. -/
theorem doRead_cases {fuel : ℕ} {n : ℤ} (h : c.doRead fuel (some n) (some bs) = .ok c')
    (hc' : c'.connected = true) : c.connected = true ∧ n ≤ c.ibuf.capacity - c.ibuf.length ∧ bs ≠ [] ∧
      bs.length = n ∧ ∃ ibuf d ibuf', c.ibuf.append bs = .ok ibuf ∧
        decode fuel { c with ibuf := ibuf } = .ok d ∧ d.ibuf.adjust = .ok ibuf' ∧
        c' = { d with ibuf := ibuf' } := by
  unfold doRead at h
  split at h
  · cases h
  rename_i hc
  dsimp only at h
  split at h
  · cases h
  rename_i hroom
  split at h
  · cases h
    cases hc'
  rename_i hbs
  split at h
  · cases h
  rename_i hn
  split at h
  · cases h
  rename_i ibuf happend
  split at h
  · cases h
  rename_i d hdecode
  split at h
  · cases h
  rename_i ibuf' hadjust
  cases h
  exact ⟨Bool.eq_true_of_not_eq_false hc, by omega, hbs, by omega, ibuf, d, ibuf', happend, hdecode,
    hadjust, rfl⟩

/-- The way through a `do_read` that gives the connection up. -/
theorem doRead_dropped {fuel : ℕ} {fionread : Option ℤ} {got : Option (List UInt8)}
    (h : c.doRead fuel fionread got = .ok c') (hc' : c'.connected = false) :
    c' = c.cleanConn ∧ fionread.isSome = true ∧ (got = none ∨ got = some []) := by
  unfold doRead at h
  split at h
  · cases h
  rename_i hc
  split at h
  · cases h
    exact absurd hc' hc
  split at h
  · cases h
  split at h
  · cases h
    exact ⟨rfl, rfl, Or.inl rfl⟩
  split at h
  · rename_i hbs
    cases h
    exact ⟨rfl, rfl, Or.inr (congrArg some hbs)⟩
  split at h
  · cases h
  split at h
  · cases h
  split at h
  · cases h
  rename_i d hdecode
  split at h
  · cases h
  cases h
  have hkept := (decode_keeps fuel _ d hdecode).1
  exact absurd (hkept.symm.trans hc') hc

/-- A `do_read` that neither reads nor gives up the connection changes nothing. -/
theorem doRead_skipped {fuel : ℕ} {fionread : Option ℤ} {got : Option (List UInt8)}
    (h : c.doRead fuel fionread got = .ok c') (hc' : c'.connected = true)
    (hnone : ∀ n bs, fionread = some n → got = some bs → False) : c' = c := by
  unfold doRead at h
  split at h
  · cases h
  split at h
  · cases h
    rfl
  rename_i n
  split at h
  · cases h
  split at h
  · cases h
    cases hc'
  · rename_i bs
    exact (hnone n bs rfl rfl).elim

theorem doRead_ok {fuel : ℕ} {n : ℤ} {ibuf ibuf' : IOBuf} (hc : c.connected = true)
    (hroom : n ≤ c.ibuf.capacity - c.ibuf.length) (hbs : bs ≠ []) (hn : bs.length = n)
    (happend : c.ibuf.append bs = .ok ibuf) (hdecode : decode fuel { c with ibuf := ibuf } = .ok d)
    (hadjust : d.ibuf.adjust = .ok ibuf') :
    c.doRead fuel (some n) (some bs) = .ok { d with ibuf := ibuf' } := by
  unfold doRead
  rw [if_neg (by rw [hc]; exact fun h => by cases h)]
  dsimp only
  rw [if_neg (by omega), if_neg hbs, if_neg (by omega), happend]
  dsimp only
  rw [hdecode]
  dsimp only
  rw [hadjust]

/-- **`do_read` does the same** with the same bytes left at the start of the buffer. -/
theorem doRead_same {fuel : ℕ} {n : ℤ} (h : Same c d) (hhead : c.ibuf.head = 0) (hlen : 0 ≤ c.ibuf.length)
    (hok : c.doRead fuel (some n) (some bs) = .ok c') (hc' : c'.connected = true) :
    bs.length = n ∧ c'.ibuf.head = 0 ∧ 0 ≤ c'.ibuf.length ∧ c'.ibuf.capacity = c.ibuf.capacity ∧
      ∃ d', d.doRead fuel (some n) (some bs) = .ok d' ∧ Same c' d' := by
  obtain ⟨hc, hroom, hbs, hn, ibuf, c1, ibuf1, happend, hdecode, hadjust, rfl⟩ := doRead_cases hok hc'
  obtain ⟨ibuf', happend', hsame⟩ := h.ibuf.append hhead happend
  have hibuf : ibuf.head = c.ibuf.head ∧ ibuf.length = c.ibuf.length + bs.length ∧
      ibuf.capacity = c.ibuf.capacity := by
    unfold IOBuf.append at happend
    split at happend
    · cases happend
      exact ⟨rfl, rfl, rfl⟩
    · cases happend
  obtain ⟨hend, hcap, hrest⟩ := decode_same fuel (c := { c with ibuf := ibuf }) (d := { d with ibuf := ibuf' })
    ⟨h.connected, h.calls, hsame⟩ hdecode
  have hend' : c1.ibuf.head + c1.ibuf.length = ibuf.head + ibuf.length := hend
  have hpos : 0 ≤ c1.ibuf.length := by
    by_contra hneg
    -- `memmove` would get a negative length
    unfold IOBuf.adjust at hadjust
    rw [if_pos (by omega), if_pos (by omega), if_neg (by omega)] at hadjust
    cases hadjust
  obtain ⟨d1, hdecode', hsame1⟩ := hrest hpos
  obtain ⟨ibuf1', hadjust', hsame1', hz, hl, hcap'⟩ := hsame1.ibuf.adjust hadjust
  refine ⟨hn, hz, by rw [hl]; exact hpos, (hcap'.trans hcap).trans hibuf.2.2, _,
    doRead_ok (h.connected.trans hc) ?_ hbs hn happend' hdecode' hadjust',
    hsame1.connected, hsame1.calls, hsame1'⟩
  rw [h.ibuf.capacity, h.ibuf.length]
  exact hroom

/-- What comes of reads, one after the other. -/
def readAll (fuel : ℕ) : List (List UInt8) → TcpClient → Except Crash TcpClient
  | [], c => .ok c
  | bs :: reads, c =>
    match c.doRead fuel (some bs.length) (some bs) with
    | .error f => .error f
    | .ok c => readAll fuel reads c

theorem readAll_snoc {fuel : ℕ} : ∀ {reads : List (List UInt8)} {c : TcpClient},
    readAll fuel reads c = .ok d → d.doRead fuel (some bs.length) (some bs) = .ok c' →
    readAll fuel (reads ++ [bs]) c = .ok c' := by
  intro reads
  induction reads with
  | nil =>
    intro c h h'
    cases h
    rw [List.nil_append, readAll, h']
    rfl
  | cons b reads ih =>
    intro c h h'
    rw [List.cons_append]
    unfold readAll at h ⊢
    split at h
    · cases h
    · exact ih h h'

end TcpClient

/-- **A connection that has nothing to do with the others**: what is written on it begins with
a message, and the router is called as a new client calls it for the same reads. -/
structure ConnLog.Separate (fuel : ℕ) (accepted : List Message) (log : ConnLog) : Prop where
  written : ∃ ms ∈ accepted.tails, log.written <+: coding.stream ms
  calls : ∀ junkOut junkIn, ∃ c, TcpClient.readAll fuel log.reads (TcpClient.new junkOut junkIn) = .ok c ∧
    c.calls = log.calls

theorem tails_append {accepted ms : List Message} (h : ms ∈ accepted.tails) (more : List Message) :
    ms ++ more ∈ (accepted ++ more).tails := by
  rw [List.mem_tails] at h ⊢
  obtain ⟨first, rfl⟩ := h
  exact ⟨first, (List.append_assoc first ms more).symm⟩

theorem ConnLog.Separate.more {fuel : ℕ} {accepted : List Message} {log : ConnLog}
    (h : log.Separate fuel accepted) (more : List Message) : log.Separate fuel (accepted ++ more) := by
  obtain ⟨ms, hms, hwritten⟩ := h.written
  refine ⟨⟨ms ++ more, tails_append hms more, ?_⟩, h.calls⟩
  rw [Framing.Coding.stream_append]
  exact hwritten.trans (List.prefix_append _ _)

namespace ClientLoop

variable {s t : ClientLoop} {fuel : ℕ}

/-- A step that gives the connection up. -/
def drops (s : ClientLoop) : Event → Bool
  | .send _ => false
  | .fired f o => !s.writing && s.loop.fires s.sockfd f &&
    (match s.loop.callback s.sockfd f with
      | .ok (some .readCallback) => true
      | _ => false) && o.fionread.isSome && (o.got = none || o.got = some [])
  | .write (.wrote _) => false
  | .write (.failed _) => s.writing

/-- **A connection is given up at the end of a message**, in both directions: nothing waits to
be decoded, and what waits to be written is some of the last messages. -/
def CleanDrop (s : ClientLoop) (e : Event) : Prop :=
  s.drops e = true → s.client.ibuf.length = 0 ∧ ∃ ms ∈ s.accepted.tails,
    Memory.slice s.client.obuf.data s.client.obuf.head s.client.obuf.length.toNat = coding.stream ms

instance (s : ClientLoop) : DecidablePred s.CleanDrop :=
  fun _ => inferInstanceAs (Decidable (_ → _ ∧ _))

/-- **What has been written and what is left** of the accepted messages, and what a new client
has left of the same reads. -/
structure Streams (fuel : ℕ) (s : ClientLoop) : Prop where
  past : ∀ log ∈ s.past, log.Separate fuel s.accepted
  output : ∃ os, s.client.obuf.Holds os ∧ ∃ ms ∈ s.accepted.tails, s.written ++ os = coding.stream ms
  outHead : s.client.obuf.head = 0
  input : ∀ junkOut junkIn, ∃ c, TcpClient.readAll fuel s.reads (TcpClient.new junkOut junkIn) = .ok c ∧
    c.calls = s.client.calls ∧ s.client.ibuf.Same c.ibuf ∧ c.connected = true
  inHead : s.client.ibuf.head = 0
  inLength : 0 ≤ s.client.ibuf.length
  inCapacity : s.client.ibuf.capacity = TcpClient.bufSize

/-- All connections are separate. -/
theorem Streams.separate (h : Streams fuel s) : ∀ log ∈ s.conns, log.Separate fuel s.accepted := by
  intro log hlog
  rcases List.mem_append.1 hlog with hlog | hlog
  · exact h.past log hlog
  · rw [List.mem_singleton.1 hlog]
    obtain ⟨os, -, ms, hms, hstream⟩ := h.output
    refine ⟨⟨ms, hms, os, hstream⟩, fun junkOut junkIn => ?_⟩
    obtain ⟨c, hc, hcalls, -⟩ := h.input junkOut junkIn
    exact ⟨c, hc, hcalls⟩

/-- What the loop waits for does not matter. -/
theorem Streams.aside (h : Streams fuel s) (loop : EventLoop ClientCallback) (writing : Bool) :
    Streams fuel { s with loop := loop, writing := writing } :=
  ⟨h.past, h.output, h.outHead, h.input, h.inHead, h.inLength, h.inCapacity⟩

/-- Neither does the end of `do_write`. -/
theorem Streams.whileWrite (h : Streams fuel s) : Streams fuel s.whileWrite := by
  unfold ClientLoop.whileWrite
  split
  · exact h.aside _ _
  · exact h

/-- Messages are put behind the others. -/
theorem Streams.sent (h : Streams fuel s) (hs : Sent s t) : Streams fuel t := by
  obtain ⟨os, hos, ms, hms, hstream⟩ := h.output
  obtain ⟨more, hacc, hh, hz⟩ := hs.messages os hos h.outHead
  refine {
    past := ?past, output := ⟨_, hh, ms ++ more, ?tail, ?stream⟩, outHead := hz, input := ?input
    inHead := ?inHead, inLength := ?inLength, inCapacity := ?inCapacity }
  case past =>
    intro log hlog
    rw [hacc]
    exact (h.past log (hs.past ▸ hlog)).more more
  case tail =>
    rw [hacc]
    exact tails_append hms more
  case stream =>
    rw [hs.written, ← List.append_assoc, hstream, Framing.Coding.stream_append]
  case input =>
    intro junkOut junkIn
    rw [hs.reads, hs.calls, hs.ibuf]
    exact h.input junkOut junkIn
  case inHead =>
    rw [hs.ibuf]
    exact h.inHead
  case inLength =>
    rw [hs.ibuf]
    exact h.inLength
  case inCapacity =>
    rw [hs.ibuf]
    exact h.inCapacity

/-- **A clean drop** leaves the next connection nothing but whole messages. -/
theorem Streams.cleanConn (h : Streams fuel s) (hin : s.client.ibuf.length = 0)
    (hout : ∃ ms ∈ s.accepted.tails, Memory.slice s.client.obuf.data s.client.obuf.head
      s.client.obuf.length.toNat = coding.stream ms) {d : Dial} (ht : s.cleanConn d = .ok t) :
    Streams fuel t := by
  -- `clean_conn` keeps both buffers, and what they still hold is the start of the next streams
  have hsent := cleanConn_sent ht
  refine Streams.sent ?_ hsent
  refine ⟨h.separate, ?_, h.outHead, fun junkOut junkIn => ?_, h.inHead, h.inLength, h.inCapacity⟩
  · obtain ⟨os, hos, -⟩ := h.output
    obtain ⟨ms, hms, hstream⟩ := hout
    have hlen : s.client.obuf.length.toNat = os.length := by rw [hos.length]; rfl
    rw [hlen, hos.bytes] at hstream
    exact ⟨os, hos, ms, hms, hstream⟩
  · have hend : s.client.ibuf.head + s.client.ibuf.length = 0 := by
      have hz := h.inHead
      omega
    refine ⟨_, rfl, rfl, ⟨hin.symm, h.inHead.symm, h.inCapacity.symm, fun i hi hlt => ?_⟩, rfl⟩
    exact absurd hlt (by show ¬i < s.client.ibuf.head + s.client.ibuf.length; omega)

/-- **`do_read`** does what it would do in a new client, and drops the connection cleanly. -/
theorem Streams.doRead (h : Streams fuel s) {o : Meets}
    (hclean : o.fionread.isSome = true → o.got = none ∨ o.got = some [] → s.client.ibuf.length = 0 ∧
      ∃ ms ∈ s.accepted.tails, Memory.slice s.client.obuf.data s.client.obuf.head
        s.client.obuf.length.toNat = coding.stream ms)
    (ht : s.doRead fuel o = .ok t) : Streams fuel t := by
  unfold ClientLoop.doRead at ht
  split at ht
  · cases ht
  rename_i client hok
  dsimp only at ht
  split at ht
  · rename_i hc
    obtain ⟨rfl, hsome, hgot⟩ := TcpClient.doRead_dropped hok hc
    obtain ⟨hin, hout⟩ := hclean hsome hgot
    have hsame : Streams fuel { s with client := s.client.cleanConn } :=
      ⟨h.past, h.output, h.outHead, h.input, h.inHead, h.inLength, h.inCapacity⟩
    exact hsame.cleanConn hin hout ht
  · rename_i hc
    have hcon : client.connected = true := Bool.eq_true_of_not_eq_false hc
    obtain ⟨-, hobuf⟩ := TcpClient.doRead_keeps hok
    have houtput : ∃ os, client.obuf.Holds os ∧ ∃ ms ∈ s.accepted.tails, s.written ++ os = coding.stream ms := by
      rw [hobuf]
      exact h.output
    have hhead : client.obuf.head = 0 := hobuf ▸ h.outHead
    split at ht
    · rename_i n bs hn hbs
      rw [hn, hbs] at hok
      refine Streams.sent ?_ (sendAll_sent o.replies ht)
      -- a new client that has read the same so far
      have hnew : ∀ junkOut junkIn, ∃ d, TcpClient.readAll fuel (s.reads ++ [bs]) (TcpClient.new junkOut junkIn) =
          .ok d ∧ TcpClient.Same client d ∧ client.ibuf.head = 0 ∧ 0 ≤ client.ibuf.length ∧
          client.ibuf.capacity = s.client.ibuf.capacity := by
        intro junkOut junkIn
        obtain ⟨c, hread, hcalls, hsame, hcc⟩ := h.input junkOut junkIn
        have hs : s.client.connected = true := (TcpClient.doRead_cases hok hcon).1
        obtain ⟨hlen, hz, hpos, hcap, d, hd, hsame'⟩ :=
          TcpClient.doRead_same ⟨hcc.trans hs.symm, hcalls, hsame⟩ h.inHead h.inLength hok hcon
        rw [← hlen] at hd
        exact ⟨d, TcpClient.readAll_snoc hread hd, hsame', hz, hpos, hcap⟩
      obtain ⟨-, -, -, hz, hpos, hcap⟩ := hnew (fun _ => 0) fun _ => 0
      refine ⟨h.past, houtput, hhead, fun junkOut junkIn => ?_, hz, hpos, hcap.trans h.inCapacity⟩
      obtain ⟨d, hd, hsame, -⟩ := hnew junkOut junkIn
      exact ⟨d, hd, hsame.calls, hsame.ibuf, hsame.connected.trans hcon⟩
    · rename_i hnone
      cases ht
      rw [TcpClient.doRead_skipped hok hcon hnone]
      exact h

/-- **One `write`** goes on with the stream. -/
theorem Streams.wrote (h : Streams fuel s) {room : ℕ} (ht : s.write (.wrote room) = .ok t) :
    Streams fuel t := by
  obtain ⟨os, hos, ms, hms, hstream⟩ := h.output
  rcases write_wrote hos room with ⟨-, heq⟩ | ⟨obuf, hh, hz, -, heq⟩
  · rw [heq] at ht
    cases ht
    exact h.aside _ _
  · rw [heq] at ht
    -- the bytes change sides, and the stream they are from stays
    have hnext : Streams fuel { s with
        client := { s.client with obuf := obuf }
        written := s.written ++ os.take room } := by
      refine ⟨h.past, ⟨_, hh, ms, hms, ?_⟩, hz, h.input, h.inHead, h.inLength, h.inCapacity⟩
      rw [List.append_assoc, List.take_append_drop]
      exact hstream
    cases ht
    exact hnext.whileWrite

/-- **Every step keeps the streams apart**, if it drops the connection cleanly or not at all. -/
theorem Streams.step (h : Streams fuel s) {e : Event} (he : s.CleanDrop e) (ht : s.step fuel e = .ok t) :
    Streams fuel t := by
  cases e with
  | send m =>
    unfold ClientLoop.step at ht
    dsimp only at ht
    split at ht
    · cases ht
      exact h
    · exact h.sent (sendMessage_sent ht)
  | fired f o =>
    unfold ClientLoop.step at ht
    dsimp only at ht
    split at ht
    · rename_i hfire
      unfold fire at ht
      split at ht
      · cases ht
      · cases ht
        exact h.aside _ _
      · rename_i hcall
        refine h.doRead (fun hsome hgot => he ?_) ht
        have hgot' : (decide (o.got = none) || decide (o.got = some [])) = true := by
          rw [Bool.or_eq_true, decide_eq_true_iff, decide_eq_true_iff]
          exact hgot
        unfold drops
        dsimp only
        rw [hcall, hfire.1, hfire.2, hsome]
        exact hgot'
      · unfold doWrite at ht
        split at ht
        · cases ht
          exact h.aside _ _
        · cases ht
      · unfold connectionDelay at ht
        have hdel : Streams fuel { s with loop := s.loop.delIoEvent s.sockfd } := h.aside _ _
        split at ht
        · exact hdel.sent (established_sent ht)
        · cases ht
          exact hdel
    · cases ht
      exact h
  | write o =>
    unfold ClientLoop.step at ht
    dsimp only at ht
    split at ht
    · rename_i hw
      cases o with
      | wrote room => exact h.wrote ht
      | failed d =>
        obtain ⟨hin, hout⟩ := he hw
        unfold write at ht
        dsimp only at ht
        split at ht
        · cases ht
        rename_i u hu
        have hnext := h.cleanConn hin hout hu
        cases ht
        exact hnext.whileWrite
    · cases ht
      exact h

variable {connected : Bool} {junkOut junkIn : ℤ → UInt8} {socket : Fd} {result : ConnectResult}

/-- The first connection begins with empty buffers. -/
theorem construct_streams (h : construct connected junkOut junkIn socket result = .ok s) :
    Streams fuel s := by
  unfold construct at h
  refine Streams.sent ?_ (doConnect_sent h)
  refine ⟨fun log hlog => (by cases hlog), ⟨[], IOBuf.holds_new (by decide) junkOut, [], ?_, rfl⟩, rfl,
    fun junkOut' junkIn' => ⟨_, rfl, rfl, ⟨rfl, rfl, rfl, fun i hi hlt => ?_⟩, rfl⟩, rfl, le_refl 0, rfl⟩
  · exact (List.mem_tails _ _).2 (List.suffix_refl [])
  · exact absurd hlt (by show ¬i < 0 + 0; omega)

/-- **Connections are separate** in every run that drops each of them cleanly. -/
theorem separate_of_clean (fuel : ℕ) (es : List Event)
    (h : construct connected junkOut junkIn socket result = .ok s)
    (hes : Runs.Along (step fuel) (fun _ s e => s.CleanDrop e) s es) :
    Runs.Throughout (step fuel) (fun _ s => ∀ log ∈ s.conns, log.Separate fuel s.accepted) s es := by
  have hall : Runs.Throughout (step fuel) (fun _ s => Streams fuel s) s es := by
    refine Runs.throughout_of_along (construct_streams h) ?_ hes
    intro pre e t u hstreams he hu
    exact hstreams.step he hu
  exact fun pre hpre t ht => (hall pre hpre t ht).separate

/-- The next connection is made at once, and `_conn_start_cb` sends nothing. -/
def nextSocket : Dial := ⟨[], 8, .connected, []⟩

/-- What the kernel has for a callback that does not read. -/
def noRead : Meets := ⟨none, none, [], 0, nextSocket⟩

/-- A message is written and its answer is read; then the peer closes, and a message is written
to the next connection. -/
def closeBetween : List Event :=
  [.send ⟨1, [5]⟩, .fired .epollout noRead, .write (.wrote 100),
    .fired .epollin ⟨some 9, some [2, 0, 0, 0, 1, 0, 0, 0, 6], [], 0, nextSocket⟩,
    .fired .epollin ⟨some 0, some [], [], 0, nextSocket⟩, .send ⟨1, [7]⟩, .fired .epollout noRead,
    .write (.wrote 100)]

theorem separate_of_clean_ok : ∃ s, construct false (fun _ => 0) (fun _ => 0) 7 .connected = .ok s ∧
    Runs.Throughout (step 10) (fun _ s => ∀ log ∈ s.conns, log.Separate 10 s.accepted) s closeBetween := by
  have hcheck : (match construct false (fun _ => 0) (fun _ => 0) 7 .connected with
      | .ok s => Runs.check (step 10) (fun s e => decide (s.CleanDrop e)) s closeBetween
      | .error _ => false) = true := by decide +kernel
  split at hcheck
  · rename_i s hs
    refine ⟨s, hs, separate_of_clean 10 closeBetween hs ?_⟩
    exact Runs.along_of_check hcheck fun _ _ _ h => of_decide_eq_true h
  · cases hcheck

/-- A connection fails behind the third byte of a message. -/
def failBetween : List Event :=
  [.send ⟨1, [5]⟩, .fired .epollout noRead, .write (.wrote 3), .write (.failed nextSocket), .write (.wrote 100)]

/-- The test for a connection on which the writing does not begin with a message. -/
def cutIn (s : ClientLoop) : Bool :=
  s.conns.any fun log => decide (∀ ms ∈ s.accepted.tails, ¬log.written <+: coding.stream ms)

/-- The next connection begins with the fourth byte of the message. -/
theorem separate_fails :
    ¬∀ (fuel : ℕ) (connected : Bool) (junkOut junkIn : ℤ → UInt8) (socket : Fd) (result : ConnectResult)
      (s : ClientLoop) (es : List Event), construct connected junkOut junkIn socket result = .ok s →
        Runs.Throughout (step fuel) (fun _ s => ∀ log ∈ s.conns, log.Separate fuel s.accepted) s es := by
  intro h
  have hrun : (match construct false (fun _ => 0) (fun _ => 0) 7 .connected with
      | .ok s =>
        match Runs.run (step 10) s failBetween with
        | .ok t => t.cutIn
        | .error _ => false
      | .error _ => false) = true := by decide +kernel
  split at hrun
  · rename_i s hs
    split at hrun
    · rename_i t ht
      obtain ⟨log, hlog, hcut⟩ := List.any_eq_true.1 hrun
      have hall := h 10 false (fun _ => 0) (fun _ => 0) 7 .connected s failBetween hs _ (List.prefix_refl _) t ht
      obtain ⟨ms, hms, hpre⟩ := (hall log hlog).written
      exact of_decide_eq_true hcut ms hms hpre
    · cases hrun
  · cases hrun

end ClientLoop

end LbRpc
