import LbRpc.Base.Runs
import LbRpc.Reactor.ReadTurns

/-!
# The room that a read finds

`read_data` makes room for the bytes that `FIONREAD` reports. When it reports none, `read` is
asked for 4096 bytes all the same, and nothing has made room for them.

* `asks_iff`: what is asked for fits **if and only if** there were 4096 bytes of room in the
  case of a zero, and the length of a larger buffer is within `int`.
* `reads_fit_iff`: over whole runs of `do_read`.
* `reads_overrun`: one byte of an unfinished message, and then a zero.
* `readData_overrun`: what comes of it when the bytes are there by the time of the `read`.
* `doRead_turns`: `TcpConn.doRead` is a run of these turns.
-/

namespace LbRpc

open Runs

namespace ReadTurns

variable {s s' : ReadTurns} {ibuf : ReactorBuf} {bs : List UInt8} {n : ℕ} {junk : ℤ → UInt8} {p : BufPool}

/-- The outcome of `asks`: a request with room for it, or none. -/
def Roomy (r : Except Crash (Option (ℤ × ℤ))) : Prop :=
  r ≠ .error .outOfBounds ∧ ∀ asked room, r = .ok (some (asked, room)) → asked ≤ room

/-- What `read` is asked for fits behind the bytes in the buffer. -/
def Fits (s : ReadTurns) (e : Event) : Prop :=
  ∀ n arrived junk p, e = .read (some n) arrived junk p → s.pc = .idle → Roomy (asks n junk s.ibuf p)

/-- The offsets of the buffer lie within it. -/
def InBounds (s : ReadTurns) : Prop :=
  ∀ b, s.ibuf.buf = some b → 0 ≤ b.head ∧ 0 ≤ b.length ∧ b.head + b.length ≤ b.capacity

/-- **The condition**: a buffer that is in use when `FIONREAD` reports nothing has 4096 bytes
of room, and when it has too little room for what `FIONREAD` reports, the length of a buffer
with enough is within `int`. -/
def Ready (s : ReadTurns) (e : Event) : Prop :=
  ∀ n arrived junk p, e = .read (some n) arrived junk p → s.pc = .idle → ∀ b, s.ibuf.buf = some b →
    (n = 0 → 4096 ≤ b.capacity - b.length) ∧ (b.capacity - b.length < n → n + b.length < 2 ^ 31)

/-! ## The request -/

theorem request_zero : request 0 = 4096 := rfl

theorem request_of_ne {need_read : ℤ} (h : need_read ≠ 0) : request need_read = need_read := if_neg h

/-- A pooled buffer has at least 4096 bytes. -/
theorem le_capacity {b : IOBuf} (h : BufPool.Classed b) : 4096 ≤ b.capacity := by
  obtain ⟨c, hc⟩ := h
  rw [hc]
  rcases c with _ | _ | _ | _ | _ | _ | _ <;> decide

theorem roomy_error {f : Crash} (h : f ≠ .outOfBounds) : Roomy (.error f) := by
  refine ⟨fun heq => h (Except.error.inj heq), ?_⟩
  intro asked room heq
  cases heq

theorem roomy_none : Roomy (.ok none) := by
  refine ⟨by simp, ?_⟩
  intro asked room heq
  cases heq

theorem roomy_some {asked room : ℤ} : Roomy (.ok (some (asked, room))) ↔ asked ≤ room := by
  refine ⟨fun h => h.2 asked room rfl, fun h => ⟨by simp, ?_⟩⟩
  intro asked' room' heq
  cases heq
  exact h

/-- A new buffer has room for what `read` is asked for. -/
theorem asks_new (hbuf : ibuf.buf = none) : Roomy (asks n junk ibuf p) := by
  have hsum : ibuf.sumOverflows n = false := by
    unfold ReactorBuf.sumOverflows
    rw [hbuf]
  have hreserve : ibuf.reserve n junk p = p.allocBuf n junk := by
    unfold ReactorBuf.reserve
    rw [hbuf]
  unfold asks
  rw [hsum, if_neg Bool.false_ne_true, hreserve]
  rcases BufPool.allocBuf_cases n p junk with ⟨herr, -⟩ | ⟨-, hnone⟩ | ⟨b, p', hok, hholds, -, hcap, hcl⟩
  · rw [herr]
    exact roomy_error (by decide)
  · rw [hnone]
    exact roomy_none
  · rw [hok]
    have hlen : b.length = 0 := hholds.length
    have hmin := le_capacity hcl
    refine roomy_some.2 ?_
    by_cases hn : n = 0
    · subst hn
      show request 0 ≤ _
      rw [request_zero]
      omega
    · rw [request_of_ne (by omega)]
      omega

/-- What is asked for when the buffer in use has too little room for `n` bytes. -/
theorem asks_larger {b : IOBuf} (h : ibuf.Holds bs) (h0 : ibuf.AtStart) (hbuf : ibuf.buf = some b)
    (hroom : b.capacity - b.length < n) (hint : n + b.length < 2 ^ 31) : Roomy (asks n junk ibuf p) := by
  have hsum : ibuf.sumOverflows n = false := by
    refine ReactorBuf.sumOverflows_false ?_
    unfold ReactorBuf.length
    rw [hbuf]
    exact hint
  have hfits : b.head + b.length ≤ b.capacity ∧ 0 ≤ b.head := by
    unfold ReactorBuf.Holds at h
    rw [hbuf] at h
    exact ⟨h.1.fits, h.1.head⟩
  unfold asks
  rw [hsum, if_neg Bool.false_ne_true]
  rcases ReactorBuf.reserve_cases n h h0 p junk with ⟨herr, -⟩ | ⟨-, p', hnone⟩ | ⟨b', p', hok, hb', -, hcap, -⟩
  · rw [herr]
    exact roomy_error (by decide)
  · rw [hnone]
    exact roomy_none
  · rw [hok]
    have hlen := hb'.length
    refine roomy_some.2 ?_
    rw [request_of_ne (by omega)]
    omega

/-- A buffer with enough room for `n` bytes stays in use. -/
theorem asks_same {b : IOBuf} (h0 : ibuf.AtStart) (hbuf : ibuf.buf = some b) (hroom : ¬ b.capacity - b.length < n) :
    asks n junk ibuf p = .ok (some (request n, b.capacity - b.length)) := by
  unfold ReactorBuf.AtStart at h0
  rw [hbuf] at h0
  have hsum : ibuf.sumOverflows n = false := by
    unfold ReactorBuf.sumOverflows
    rw [hbuf, decide_eq_false_iff_not]
    exact fun hall => hroom hall.2.1
  have hreserve : ibuf.reserve n junk p = .ok (some b, p) := by
    unfold ReactorBuf.reserve
    rw [hbuf]
    dsimp only
    rw [if_neg (by simpa using h0), if_neg hroom]
  unfold asks
  rw [hsum, if_neg Bool.false_ne_true, hreserve]

/-- **What `read` is asked for fits if and only if** a buffer in use had 4096 bytes of room in
the case of a zero, and the length of a larger one is within `int`. -/
theorem asks_iff (h : ibuf.Holds bs) (h0 : ibuf.AtStart) (n : ℕ) (junk : ℤ → UInt8) (p : BufPool) :
    Roomy (asks n junk ibuf p) ↔ ∀ b, ibuf.buf = some b →
      (n = 0 → 4096 ≤ b.capacity - b.length) ∧ (b.capacity - b.length < n → n + b.length < 2 ^ 31) := by
  rcases hbuf : ibuf.buf with _ | b
  · refine ⟨fun _ b hb => ?_, fun _ => asks_new hbuf⟩
    cases hb
  have hzero : b.head = 0 := by
    unfold ReactorBuf.AtStart at h0
    rw [hbuf] at h0
    exact h0
  have hfits : b.length ≤ b.capacity := by
    unfold ReactorBuf.Holds at h
    rw [hbuf] at h
    have := h.1.fits
    omega
  by_cases hroom : b.capacity - b.length < n
  · constructor
    · rintro ⟨hdefined, -⟩ b' hb'
      cases hb'
      refine ⟨fun hn => by omega, fun _ => ?_⟩
      by_contra hbig
      refine hdefined ?_
      have hsum : ibuf.sumOverflows n = true := by
        unfold ReactorBuf.sumOverflows
        rw [hbuf]
        exact decide_eq_true ⟨hzero, hroom, Int.not_lt.1 hbig⟩
      unfold asks
      rw [if_pos hsum]
    · exact fun hready => asks_larger h h0 hbuf hroom ((hready b rfl).2 hroom)
  · rw [asks_same h0 hbuf hroom, roomy_some]
    constructor
    · intro hask b' hb'
      cases hb'
      refine ⟨fun hn => ?_, fun hlt => absurd hlt hroom⟩
      subst hn
      exact hask
    · intro hready
      by_cases hn : n = 0
      · have hmin := (hready b rfl).1 hn
        subst hn
        exact hmin
      · rw [request_of_ne (by omega)]
        omega

/-! ## The turns of `do_read` -/

/-- What holds between two turns: the bytes `bs` are in the buffer. -/
structure Good (s : ReadTurns) (bs : List UInt8) : Prop where
  holds : s.ibuf.Holds bs
  tight : s.ibuf.Tight
  atStart : s.pc = .idle → s.ibuf.AtStart
  body : ∀ m, s.pc = .body m → 0 ≤ m ∧ m ≤ bs.length

theorem good_new : new.Good [] where
  holds := ReactorBuf.holds_empty
  tight := trivial
  atStart := fun _ => trivial
  body := by
    intro m h
    cases h

theorem Good.inBounds (h : s.Good bs) : s.InBounds := by
  intro b hb
  have hholds := h.holds
  unfold ReactorBuf.Holds at hholds
  rw [hb] at hholds
  have hlen := hholds.1.length
  exact ⟨hholds.1.head, by omega, hholds.1.fits⟩

/-- A turn leads to a state between two turns, or the process ends: at the memory limit, or by
an assertion. -/
def Turns (r : Except Crash ReadTurns) : Prop :=
  (∃ s' bs, r = .ok s' ∧ s'.Good bs) ∨ ∃ f, r = .error f ∧ (f = .memoryLimit ∨ f = .assertFail)

theorem cleanConn_turns (h : ibuf.Holds bs) (p : BufPool) : Turns (cleanConn ibuf p) := by
  obtain ⟨ibuf', p', hclear, hnone⟩ := ReactorBuf.clear_ok (p := p) h
  unfold cleanConn
  rw [hclear]
  refine Or.inl ⟨_, [], rfl, ?_, ?_, ?_, ?_⟩
  · unfold ReactorBuf.Holds
    rw [hnone]
  · unfold ReactorBuf.Tight
    rw [hnone]
    trivial
  · intro hpc
    cases hpc
  · intro m hpc
    cases hpc

theorem adjust_turns (h : ibuf.Holds bs) (ht : ibuf.Tight) : Turns (adjust ibuf) := by
  obtain ⟨ibuf', hadj, hholds, htight, h0⟩ := ReactorBuf.adjust_ok h ht
  unfold adjust
  rw [hadj]
  refine Or.inl ⟨_, bs, rfl, hholds, htight, fun _ => h0, ?_⟩
  intro m hpc
  cases hpc

/-- **`read_data`** with room for what it asks for. -/
theorem readData_turns (h : ibuf.Holds bs) (h0 : ibuf.AtStart) (fionread : Option ℕ)
    (hfits : ∀ n, fionread = some n → Roomy (asks n junk ibuf p)) (arrived : Option (List UInt8)) :
    Turns (readData fionread arrived junk ibuf p) := by
  unfold readData
  cases fionread with
  | none =>
    have hread : ∀ got, ibuf.readData none got junk p = .ok (-1, ibuf, p) := fun _ => rfl
    dsimp only [Option.map_none]
    rw [if_neg (by simp), hread]
    dsimp only
    rw [if_pos (Or.inl rfl)]
    exact cleanConn_turns h p
  | some n =>
    obtain ⟨hdefined, hle⟩ := hfits n rfl
    unfold asks at hdefined hle
    have hsum : ibuf.sumOverflows n = false := by
      by_contra hover
      rw [Bool.not_eq_false] at hover
      exact hdefined (if_pos hover)
    rw [hsum, if_neg Bool.false_ne_true] at hle
    dsimp only [Option.map_some, Option.getD_some]
    rw [if_neg (by simp [hsum])]
    unfold ReactorBuf.readData
    dsimp only
    rcases ReactorBuf.reserve_cases n h h0 p junk with
      ⟨herr, -⟩ | ⟨-, p', hnone⟩ | ⟨b, p', hok, hb, hz, hcap, hcl⟩
    · rw [herr]
      exact Or.inr ⟨_, rfl, Or.inl rfl⟩
    · rw [hnone]
      dsimp only
      rw [if_pos (Or.inl rfl)]
      exact cleanConn_turns h p'
    · rw [hok] at hle ⊢
      have hroom := hle _ _ rfl
      have hholds : ReactorBuf.Holds ⟨some b⟩ bs := ⟨hb, hcl⟩
      cases arrived with
      | none =>
        dsimp only [Option.map_none]
        rw [if_pos (Or.inl rfl)]
        exact cleanConn_turns hholds p'
      | some all =>
        dsimp only [Option.map_some]
        have hlen : (all.take (request n).toNat).length ≤ (request n).toNat := by
          rw [List.length_take]
          exact Nat.min_le_left _ _
        generalize all.take (request n).toNat = xs at hlen ⊢
        by_cases hxs : xs = []
        · rw [if_pos hxs]
          dsimp only
          rw [if_pos (Or.inr rfl)]
          exact cleanConn_turns hholds p'
        · rw [if_neg hxs]
          have hpos := List.length_pos_iff.2 hxs
          by_cases hshort : (n : ℤ) ≠ 0 ∧ (xs.length : ℤ) ≠ n
          · rw [if_pos hshort]
            exact Or.inr ⟨_, rfl, Or.inr rfl⟩
          · rw [if_neg hshort]
            have hbl := hb.length
            obtain ⟨b', happ, hb', -, hcap'⟩ := hb.append xs hz (by omega)
            rw [happ]
            dsimp only
            rw [if_neg (by omega)]
            refine Or.inl ⟨_, bs ++ xs, rfl, ⟨hb', ?_⟩, ?_, ?_, ?_⟩
            · obtain ⟨c, hc⟩ := hcl
              exact ⟨c, hcap'.trans hc⟩
            · show b'.length ≠ 0
              rw [hb'.length, List.length_append]
              omega
            · intro hpc
              cases hpc
            · intro m hpc
              cases hpc

/-- **The decode loop** up to its next call. -/
theorem decode_turns (h : ibuf.Holds bs) (ht : ibuf.Tight) (p : BufPool) : Turns (decode ibuf p) := by
  have hlen := h.length
  unfold decode
  by_cases hshort : ibuf.length < messageHeadLen
  · rw [if_pos hshort]
    exact adjust_turns h ht
  · have hhead : messageHeadLen ≤ bs.length := by omega
    have hne : bs ≠ [] := by
      rintro rfl
      exact absurd hhead (by decide)
    rw [if_neg hshort, h.peek_take hne hhead]
    dsimp only
    generalize MsgHead.ofBytes (bs.take messageHeadLen) = head
    by_cases hbad : messageLengthLimit < head.msglen.toInt ∨ head.msglen.toInt < 0
    · rw [if_pos hbad]
      exact cleanConn_turns h p
    · rw [if_neg hbad]
      by_cases hpart : ibuf.length < messageHeadLen + head.msglen.toInt
      · rw [if_pos hpart]
        exact adjust_turns h ht
      · rw [if_neg hpart]
        obtain ⟨ibuf', p', hpop, hholds, htight⟩ := ReactorBuf.pop_drop h hne hhead p
        rw [hpop]
        refine Or.inl ⟨_, bs.drop messageHeadLen, rfl, hholds, htight, ?_, ?_⟩
        · intro hpc
          cases hpc
        · intro m hpc
          cases hpc
          rw [List.length_drop]
          omega

/-- **The `pop` of a body.** One without bytes behind the last head has no buffer to take from. -/
theorem body_turns (h : s.Good bs) {m : ℤ} (hpc : s.pc = .body m) (p : BufPool) :
    Turns (s.step (.turn p)) := by
  obtain ⟨hm, hle⟩ := h.body m hpc
  unfold step
  dsimp only
  rw [hpc]
  dsimp only
  by_cases hbuf : s.ibuf.buf = none
  · rw [ReactorBuf.pop_none hbuf]
    exact Or.inr ⟨_, rfl, Or.inr rfl⟩
  · have hne : bs ≠ [] := by
      rintro rfl
      exact hbuf (h.tight.buf_none h.holds)
    obtain ⟨ibuf', p', hpop, hholds, htight⟩ := ReactorBuf.pop_drop h.holds hne (n := m.toNat) (by omega) p
    rw [Int.toNat_of_nonneg hm] at hpop
    rw [hpop]
    refine Or.inl ⟨_, bs.drop m.toNat, rfl, hholds, htight, ?_, ?_⟩
    · intro hpc'
      cases hpc'
    · intro k hpc'
      cases hpc'

/-- **One turn**, with room for what it asks for. -/
theorem Good.step (h : s.Good bs) {e : Event} (hfits : s.Fits e) : Turns (s.step e) := by
  cases e with
  | read fionread arrived junk p =>
    unfold ReadTurns.step
    dsimp only
    cases hpc : s.pc with
    | idle =>
      refine readData_turns h.holds (h.atStart hpc) fionread ?_ arrived
      rintro n rfl
      exact hfits n arrived junk p rfl hpc
    | loop => exact Or.inl ⟨s, bs, rfl, h⟩
    | body m => exact Or.inl ⟨s, bs, rfl, h⟩
    | closed => exact Or.inl ⟨s, bs, rfl, h⟩
  | turn p =>
    cases hpc : s.pc with
    | body m => exact body_turns h hpc p
    | loop =>
      unfold ReadTurns.step
      dsimp only
      rw [hpc]
      exact decode_turns h.holds h.tight p
    | idle =>
      unfold ReadTurns.step
      dsimp only
      rw [hpc]
      exact Or.inl ⟨s, bs, rfl, h⟩
    | closed =>
      unfold ReadTurns.step
      dsimp only
      rw [hpc]
      exact Or.inl ⟨s, bs, rfl, h⟩

theorem Good.fits_iff (h : s.Good bs) (e : Event) : s.Fits e ↔ s.Ready e := by
  refine forall_congr' fun n => forall_congr' fun arrived => forall_congr' fun junk =>
    forall_congr' fun p => forall_congr' fun _ => forall_congr' fun hpc => ?_
  exact asks_iff h.holds (h.atStart hpc) n junk p

/-- **What is read fits if and only if** the condition is met at each `do_read` of the run. -/
theorem reads_fit_iff (es : List Event) :
    (Along step (fun _ s e => s.Fits e) new es ∧
        AlwaysUpTo (fun f => f = .memoryLimit ∨ f = .assertFail) step (fun _ s => s.InBounds) new es) ↔
      Along step (fun _ s e => s.Ready e) new es := by
  have hcongr : Along step (fun _ s e => s.Fits e) new es ↔ Along step (fun _ s e => s.Ready e) new es := by
    refine along_congr (I := fun _ s => ∃ bs, s.Good bs) ⟨[], good_new⟩ ?_ ?_
    · rintro - s e ⟨bs, h⟩
      exact h.fits_iff e
    · rintro - s e s' ⟨bs, h⟩ hready hs
      rcases h.step ((h.fits_iff e).2 hready) with ⟨t, bs', ht, hgood⟩ | ⟨f, hf, -⟩
      · rw [ht] at hs
        cases hs
        exact ⟨bs', hgood⟩
      · rw [hf] at hs
        cases hs
  rw [hcongr]
  refine ⟨fun h => h.1, fun hready => ⟨hready, ?_⟩⟩
  have hgood : AlwaysUpTo (fun f => f = .memoryLimit ∨ f = .assertFail) step
      (fun _ s => ∃ bs, s.Good bs) new es := by
    refine alwaysUpTo_of_step ⟨[], good_new⟩ ?_
    rintro pre e hpre s hs ⟨bs, h⟩
    rcases h.step ((h.fits_iff e).2 (hready pre e hpre s hs)) with ⟨t, bs', ht, hgood⟩ | hf
    · exact Or.inl ⟨t, ht, bs', hgood⟩
    · exact Or.inr hf
  exact hgood.imp fun _ s ⟨bs, h⟩ => h.inBounds

/-- One byte of a message comes, and then the peer closes the connection: `FIONREAD` reports
nothing, and `read` finds the end. -/
def halfClosed : List Event :=
  [.read (some 1) (some [7]) (fun _ => 0) .bare, .turn .bare, .read (some 0) (some []) (fun _ => 0) .bare]

/-- **4096 bytes are asked for where 4095 have room.** -/
theorem reads_overrun : ¬ ∀ es : List Event, Along step (fun _ s e => s.Fits e) new es ∧
    AlwaysUpTo (fun f => f = .memoryLimit ∨ f = .assertFail) step (fun _ s => s.InBounds) new es := by
  intro hall
  obtain ⟨s, hs, hask⟩ : ∃ s, run step new (halfClosed.take 2) = .ok s ∧
      (s.pc, asks 0 (fun _ => 0) s.ibuf .bare) = (.idle, .ok (some (4096, 4095))) :=
    ⟨_, rfl, rfl⟩
  obtain ⟨hpc, hask⟩ := Prod.mk.inj hask
  have hfits := (hall halfClosed).1 (halfClosed.take 2) _ (List.prefix_refl _) s hs 0 _ _ _ rfl hpc
  exact absurd (hfits.2 4096 4095 hask) (by decide)

/-- **More bytes than have room** that come between `ioctl` and `read` are written behind the
buffer. -/
theorem readData_overrun {b : IOBuf} {all : List UInt8} (h0 : b.head = 0) (hle : b.length ≤ b.capacity)
    (hlong : b.capacity - b.length < all.length) (hall : all.length ≤ 4096) :
    readData (some 0) (some all) junk ⟨some b⟩ p = .error .outOfBounds := by
  have hsum : ¬ ((some 0).map fun n : ℕ => ReactorBuf.sumOverflows n ⟨some b⟩) = some true := by
    intro h
    have hover : ReactorBuf.sumOverflows (0 : ℕ) ⟨some b⟩ = true := Option.some.inj h
    have hroom : b.capacity - b.length < (0 : ℕ) := (of_decide_eq_true hover).2.1
    omega
  have hreserve : ReactorBuf.reserve (0 : ℕ) junk ⟨some b⟩ p = .ok (some b, p) := by
    unfold ReactorBuf.reserve
    dsimp only
    rw [if_neg (by simpa using h0), if_neg (by omega)]
  have htake : all.take (request (0 : ℕ)).toNat = all := List.take_of_length_le hall
  have hne : all ≠ [] := by
    rintro rfl
    rw [List.length_nil] at hlong
    omega
  have happend : b.append all = .error .outOfBounds := by
    unfold IOBuf.append
    rw [if_neg]
    omega
  unfold readData
  rw [if_neg hsum]
  unfold ReactorBuf.readData
  dsimp only [Option.map_some, Option.getD_some]
  rw [hreserve, htake]
  dsimp only
  rw [if_neg hne, if_neg (by simp), happend]

/-! ## The whole of `do_read` -/

theorem clear_none {ibuf' : ReactorBuf} {p' : BufPool} (h : ibuf.clear p = .ok (ibuf', p')) : ibuf'.buf = none := by
  unfold ReactorBuf.clear at h
  rcases hbuf : ibuf.buf with _ | b
  · rw [hbuf] at h
    cases h
    exact hbuf
  · rw [hbuf] at h
    dsimp only at h
    cases hrev : p.revert b with
    | error f =>
      rw [hrev] at h
      cases h
    | ok p'' =>
      rw [hrev] at h
      cases h
      rfl

/-- A `clean_conn` of the connection clears the input buffer, and leaves `adjust` nothing to do. -/
theorem cleanConn_eq {c c' : TcpConn} {p' : BufPool} (h : c.cleanConn p = .ok (c', p')) :
    cleanConn c.ibuf p = .ok ⟨c'.ibuf, .closed⟩ ∧ c'.closed = true ∧ c'.ibuf.adjust = .ok c'.ibuf := by
  unfold TcpConn.cleanConn at h
  unfold cleanConn
  cases hclear : c.ibuf.clear p with
  | error f =>
    rw [hclear] at h
    cases h
  | ok r =>
    obtain ⟨ibuf, p₁⟩ := r
    rw [hclear] at h
    dsimp only at h
    cases hout : c.obuf.clear p₁ with
    | error f =>
      rw [hout] at h
      cases h
    | ok r =>
      rw [hout] at h
      cases h
      refine ⟨rfl, rfl, ?_⟩
      have hnone := clear_none hclear
      show ibuf.adjust = .ok ibuf
      unfold ReactorBuf.adjust
      rw [hnone]

/-- The state behind a `do_read`. -/
def after (c : TcpConn) (ibuf : ReactorBuf) : ReadTurns := ⟨ibuf, if c.closed then .closed else .idle⟩

theorem run_turn {s s' u : ReadTurns} {ps : List BufPool} (h : s.step (.turn p) = .ok s')
    (hrun : run step s' (ps.map .turn) = .ok u) : run step s ((p :: ps).map .turn) = .ok u :=
  run_cons_ok.2 ⟨s', h, hrun⟩

/-- The decode loop is a run of turns. -/
theorem decode_run (fuel : ℕ) : ∀ (c c' : TcpConn) (p p' : BufPool) (ibuf : ReactorBuf),
    TcpConn.decode fuel c p = .ok (c', p') → c.closed = false → c'.ibuf.adjust = .ok ibuf →
    ∃ ps : List BufPool, run step ⟨c.ibuf, .loop⟩ (ps.map .turn) = .ok (after c' ibuf) := by
  induction fuel with
  | zero =>
    intro c c' p p' ibuf h
    cases h
  | succ fuel ih =>
    intro c c' p p' ibuf h hopen hadj
    have hturn : ∀ q, step ⟨c.ibuf, .loop⟩ (.turn q) = decode c.ibuf q := fun _ => rfl
    -- the loop ends, and `adjust` is called
    have hend : c' = c → decode c.ibuf p = adjust c.ibuf →
        ∃ ps : List BufPool, run step ⟨c.ibuf, .loop⟩ (ps.map .turn) = .ok (after c' ibuf) := by
      rintro rfl hdec
      refine ⟨[p], run_turn ?_ (run_nil _)⟩
      rw [hturn, hdec]
      unfold adjust after
      rw [hadj, hopen]
      rfl
    unfold TcpConn.decode at h
    unfold decode at hend hturn
    by_cases hshort : c.ibuf.length < messageHeadLen
    · rw [if_pos hshort] at h hend
      cases h
      exact hend rfl rfl
    · rw [if_neg hshort] at h hend
      cases hpeek : c.ibuf.peek messageHeadLen with
      | error f =>
        rw [hpeek] at h
        cases h
      | ok bs =>
        rw [hpeek] at h hend
        dsimp only at h hend
        by_cases hbad : messageLengthLimit < (MsgHead.ofBytes bs).msglen.toInt ∨
            (MsgHead.ofBytes bs).msglen.toInt < 0
        · rw [if_pos hbad] at h
          obtain ⟨hclean, hclosed, hsame⟩ := cleanConn_eq h
          rw [hsame] at hadj
          cases hadj
          refine ⟨[p], run_turn ?_ (run_nil _)⟩
          rw [hturn, if_neg hshort, hpeek]
          dsimp only
          rw [if_pos hbad, hclean]
          unfold after
          rw [if_pos hclosed]
        · rw [if_neg hbad] at h hend
          by_cases hpart : c.ibuf.length < messageHeadLen + (MsgHead.ofBytes bs).msglen.toInt
          · rw [if_pos hpart] at h hend
            cases h
            exact hend rfl rfl
          · rw [if_neg hpart] at h
            cases hpop : c.ibuf.pop messageHeadLen p with
            | error f =>
              rw [hpop] at h
              cases h
            | ok r =>
              obtain ⟨ibuf₁, p₁⟩ := r
              rw [hpop] at h
              dsimp only at h
              cases hbody : ibuf₁.pop (MsgHead.ofBytes bs).msglen.toInt p₁ with
              | error f =>
                rw [hbody] at h
                cases h
              | ok r =>
                obtain ⟨ibuf₂, p₂⟩ := r
                rw [hbody] at h
                obtain ⟨ps, hps⟩ := ih _ _ _ _ ibuf h hopen hadj
                -- the head, the body, and what comes then
                have hhead : step ⟨c.ibuf, .loop⟩ (.turn p) =
                    .ok ⟨ibuf₁, .body (MsgHead.ofBytes bs).msglen.toInt⟩ := by
                  rw [hturn, if_neg hshort, hpeek]
                  dsimp only
                  rw [if_neg hbad, if_neg hpart, hpop]
                have hbody' : step ⟨ibuf₁, .body (MsgHead.ofBytes bs).msglen.toInt⟩ (.turn p₁) =
                    .ok ⟨ibuf₂, .loop⟩ := by
                  unfold step
                  dsimp only
                  rw [hbody]
                exact ⟨p :: p₁ :: ps, run_turn hhead (run_turn hbody' hps)⟩

/-- **`TcpConn.doRead` is a run of turns**: one for `read_data`, then those of the decode loop,
for a `read` that brings no more than it is asked for. -/
theorem doRead_turns {c c' : TcpConn} {p' : BufPool} {fionread : Option ℕ} {got : Option (List UInt8)}
    (h : c.doRead (fionread.map Nat.cast) got junk p = .ok (c', p')) (hopen : c.closed = false)
    (hsum : ∀ n, fionread = some n → c.ibuf.sumOverflows n = false)
    (hgot : ∀ bs, got = some bs → (bs.length : ℤ) ≤ request (fionread.getD 0)) :
    ∃ ps : List BufPool, run step ⟨c.ibuf, .idle⟩ (.read fionread got junk p :: ps.map .turn) =
      .ok (after c' c'.ibuf) := by
  have hnosum : ¬ (fionread.map fun n : ℕ => c.ibuf.sumOverflows n) = some true := by
    cases fionread with
    | none => simp
    | some n => simp [hsum n rfl]
  have htake : (got.map fun bs => bs.take (request (fionread.getD 0)).toNat) = got := by
    cases got with
    | none => rfl
    | some bs =>
      have hlen := hgot bs rfl
      rw [Option.map_some, List.take_of_length_le (by omega)]
  have hread : ∀ ret ibuf p₁, c.ibuf.readData (fionread.map Nat.cast) got junk p = .ok (ret, ibuf, p₁) →
      step ⟨c.ibuf, .idle⟩ (.read fionread got junk p) =
        if ret = -1 ∨ ret = 0 then cleanConn ibuf p₁ else .ok ⟨ibuf, .loop⟩ := by
    intro ret ibuf p₁ hdata
    unfold step readData
    dsimp only
    rw [if_neg hnosum, htake, hdata]
  unfold TcpConn.doRead at h
  cases hdata : c.ibuf.readData (fionread.map Nat.cast) got junk p with
  | error f =>
    rw [hdata] at h
    cases h
  | ok r =>
    obtain ⟨ret, ibuf, p₁⟩ := r
    have hread := hread ret ibuf p₁ hdata
    rw [hdata] at h
    dsimp only at h
    by_cases hret : ret = -1 ∨ ret = 0
    · rw [if_pos hret] at h hread
      obtain ⟨hclean, hclosed, -⟩ := cleanConn_eq h
      refine ⟨[], run_cons_ok.2 ⟨_, hread.trans hclean, ?_⟩⟩
      unfold after
      rw [if_pos hclosed]
      rfl
    · rw [if_neg hret] at h hread
      cases hdec : TcpConn.decode (ibuf.length.toNat + 1) { c with ibuf := ibuf } p₁ with
      | error f =>
        rw [hdec] at h
        cases h
      | ok r =>
        obtain ⟨c₁, p₂⟩ := r
        rw [hdec] at h
        dsimp only at h
        cases hadj : c₁.ibuf.adjust with
        | error f =>
          rw [hadj] at h
          cases h
        | ok ibuf' =>
          rw [hadj] at h
          cases h
          obtain ⟨ps, hps⟩ := decode_run _ { c with ibuf := ibuf } c₁ p₁ p' ibuf' hdec hopen hadj
          exact ⟨ps, run_cons_ok.2 ⟨_, hread, hps⟩⟩

end ReadTurns

end LbRpc
