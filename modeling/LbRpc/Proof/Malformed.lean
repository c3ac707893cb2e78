import LbRpc.Base.Runs
import LbRpc.Proof.Decode

/-!
# A server connection under any byte stream

A peer sends any bytes, cut into any non-empty reads. Other connections use the pool in
between, so each read meets some pool and some junk in a fresh buffer.

* `Arrived bs c`: the calls made are the frames of `bs`, a bad head closed the
  connection, and otherwise the input buffer has what is left at its start.
* `step_arrived`: a read keeps this, unless it ends with a frame without a body.
* `no_assert_iff`: no read of a stream fails an assertion, loops or loses its place,
  **exactly when** no read ends with a frame without a body.
-/

namespace LbRpc

open Framing

/-- A read event: what arrived, and what it finds in the pool and in fresh memory. -/
structure Read where
  bytes : List UInt8
  pool : BufPool
  junk : ℤ → UInt8

/-- The bytes of some reads. -/
def received (rs : List Read) : List UInt8 := (rs.map Read.bytes).flatten

theorem received_snoc (rs : List Read) (r : Read) : received (rs ++ [r]) = received rs ++ r.bytes := by
  simp [received]

/-- The last byte decides whether a stream ends with an empty frame, so it is enough to
look at what was left and the bytes after it. -/
theorem endsEmpty_append {bs xs : List UInt8} (hb : (parse format bs).bad = false) (hxs : xs ≠ []) :
    EndsEmpty (bs ++ xs) ↔ EndsEmpty ((parse format bs).rest ++ xs) := by
  unfold EndsEmpty
  rw [parse_append bs xs hb]
  dsimp only
  rcases hf : (parse format ((parse format bs).rest ++ xs)).frames with _ | ⟨g, gs⟩
  · -- without a new frame the new bytes are left, and there are some
    constructor
    · rintro ⟨hbad, hrest, -⟩
      rw [rest_of_frames_nil hf hbad] at hrest
      exact absurd (List.append_eq_nil_iff.1 hrest).2 hxs
    · rintro ⟨-, -, f, hlast, -⟩
      cases hlast
  · have hlast : ((parse format bs).frames ++ g :: gs).getLast? = (g :: gs).getLast? := by
      rw [List.getLast?_append_cons]
    rw [hlast]

/-- **A connection to which the bytes `bs` have been read.** -/
structure Arrived (bs : List UInt8) (c : TcpConn) : Prop where
  calls : c.calls = (parse format bs).frames.map frameCall
  closed : c.closed = (parse format bs).bad
  ibuf : (parse format bs).bad = false → c.ibuf.Holds (parse format bs).rest ∧ c.ibuf.AtStart
  obuf : (parse format bs).bad = false → ∃ os, c.obuf.Holds os

namespace TcpConn

/-- A read event; a closed connection gets none. -/
def step (c : TcpConn) (r : Read) : Except Crash TcpConn :=
  if c.closed = true then .ok c
  else
    match c.doRead (some r.bytes.length) (some r.bytes) r.junk r.pool with
    | .error f => .error f
    | .ok (c, _) => .ok c

end TcpConn

theorem arrived_new : Arrived [] TcpConn.new := by
  refine ⟨?_, ?_, ?_, ?_⟩ <;> rw [parse_nil]
  · rfl
  · rfl
  · exact fun _ => ⟨rfl, trivial⟩
  · exact fun _ => ⟨[], rfl⟩

/-- What one `do_read` decodes, seen from the whole stream. -/
theorem Arrived.decoded {bs xs : List UInt8} {c c' : TcpConn} (h : Arrived bs c)
    (hb : (parse format bs).bad = false) (hd : c.Decoded ((parse format bs).rest ++ xs) c')
    (hs : c'.ibuf.AtStart) : Arrived (bs ++ xs) c' := by
  have hp := parse_append bs xs hb
  refine ⟨?_, ?_, ?_, ?_⟩ <;> rw [hp]
  · rw [hd.calls, h.calls, List.map_append]
  · rw [hd.closed, h.closed, hb, Bool.or_false]
  · exact fun hgood => ⟨(hd.ibuf hgood).1, hs⟩
  · exact fun hgood => by rw [hd.obuf hgood]; exact h.obuf hb

variable {bs : List UInt8} {c : TcpConn} {r : Read}

/-- Behind a bad head nothing is read and nothing is called. -/
theorem step_closed (h : Arrived bs c) (hb : (parse format bs).bad = true) :
    c.step r = .ok c ∧ Arrived (bs ++ r.bytes) c := by
  unfold TcpConn.step
  rw [h.closed, hb, if_pos rfl]
  refine ⟨rfl, ?_⟩
  have hp := parse_append_bad bs r.bytes hb
  refine ⟨?_, ?_, ?_, ?_⟩ <;> rw [hp]
  · exact h.calls
  · exact h.closed
  · exact h.ibuf
  · exact h.obuf

/-- **A read keeps the connection's place in the stream**, or meets the memory limit in a
pool without room. -/
theorem step_arrived (h : Arrived bs c) (hne : r.bytes ≠ [])
    (hfit : (r.bytes.length : ℤ) + (parse format bs).rest.length ≤ 8388608)
    (hend : ¬ EndsEmpty (bs ++ r.bytes)) :
    (∃ u, c.step r = .ok u ∧ Arrived (bs ++ r.bytes) u) ∨
      (c.step r = .error .memoryLimit ∧ ¬ r.pool.HasRoom) := by
  rcases hb : (parse format bs).bad with _ | _
  · unfold TcpConn.step
    rw [h.closed, hb, if_neg (by simp)]
    obtain ⟨hi, h0⟩ := h.ibuf hb
    obtain ⟨os, ho⟩ := h.obuf hb
    rw [endsEmpty_append hb hne] at hend
    rcases TcpConn.doRead_ok hi h0 ho hne hfit hend r.pool r.junk with
      ⟨herr, hfull⟩ | ⟨c', p', hok, hd, hs⟩
    · rw [herr]; exact Or.inr ⟨rfl, hfull⟩
    · rw [hok]; exact Or.inl ⟨c', rfl, h.decoded hb hd hs⟩
  · exact Or.inl ⟨c, step_closed h hb⟩

/-- With room in the pool, a read that ends with a frame without a body has no result. -/
theorem step_assert (h : Arrived bs c) (hne : r.bytes ≠ [])
    (hfit : (r.bytes.length : ℤ) + (parse format bs).rest.length ≤ 8388608) (hroom : r.pool.HasRoom)
    (hend : EndsEmpty (bs ++ r.bytes)) : c.step r = .error .assertFail := by
  have hb : (parse format bs).bad = false := bad_of_append hend.1
  obtain ⟨hi, h0⟩ := h.ibuf hb
  rw [endsEmpty_append hb hne] at hend
  unfold TcpConn.step
  rw [h.closed, hb, if_neg (by simp)]
  rcases TcpConn.doRead_assert hi h0 hne hfit hend r.pool r.junk with hfull | herr
  · exact absurd hroom hfull
  · rw [herr]

/-- The reads fit the largest buffers of the pool, with what was left before them. -/
def FitsPool (chunks : List (List UInt8)) : Prop :=
  ∀ pre xs, pre ++ [xs] <+: chunks →
    (xs.length : ℤ) + (parse format pre.flatten).rest.length ≤ 8388608

/-- A read from a pool with room, in which only the assertion can stop a connection. -/
def bareRead (xs : List UInt8) : Read := ⟨xs, BufPool.bare, fun _ => 0⟩

theorem map_bareRead (l : List (List UInt8)) : (l.map bareRead).map Read.bytes = l := by
  simp [bareRead, Function.comp_def]

/-- Where the connection survives reads from a pool with room, none of them ends with a frame
without a body. -/
theorem not_endsEmpty_of_runs {chunks : List (List UInt8)} (hne : ∀ xs ∈ chunks, xs ≠ [])
    (hfit : FitsPool chunks)
    (hruns : Runs.AlwaysUpTo (· = .memoryLimit) TcpConn.step (fun pre c => Arrived (received pre) c)
      TcpConn.new (chunks.map bareRead)) :
    ∀ pre, pre <+: chunks →
      (∃ c, Runs.run TcpConn.step TcpConn.new (pre.map bareRead) = .ok c ∧ Arrived pre.flatten c) ∧
        ¬ EndsEmpty pre.flatten := by
  intro pre
  induction pre using List.reverseRecOn with
  | nil =>
    have hnil : ¬ EndsEmpty [] := not_endsEmpty_of_stop (by rw [parse_nil])
    exact fun _ => ⟨⟨_, rfl, arrived_new⟩, hnil⟩
  | append_singleton pre xs ih =>
    intro hpre
    obtain ⟨⟨c, hc, harr⟩, -⟩ := ih ((List.prefix_append pre [xs]).trans hpre)
    have hxs : xs ≠ [] := hne xs (hpre.subset (by simp))
    have hroom : (bareRead xs).pool.HasRoom := BufPool.bare_hasRoom
    have hstep : Runs.run TcpConn.step TcpConn.new ((pre ++ [xs]).map bareRead) =
        c.step (bareRead xs) := by
      rw [List.map_append, List.map_singleton]
      exact Runs.run_snoc hc
    have hflat : (pre ++ [xs]).flatten = pre.flatten ++ xs := by simp
    rw [hstep, hflat]
    by_cases hend : EndsEmpty (pre.flatten ++ xs)
    · -- the assertion fails, which the run does not tolerate
      have hassert := step_assert (r := bareRead xs) harr hxs (hfit pre xs hpre) hroom hend
      rcases hruns _ (hpre.map bareRead) with ⟨t, ht, -⟩ | ⟨f, hf, rfl⟩
      · rw [hstep, hassert] at ht; cases ht
      · rw [hstep, hassert] at hf; cases hf
    · rcases step_arrived (r := bareRead xs) harr hxs (hfit pre xs hpre) hend with hok | ⟨-, hfull⟩
      · exact ⟨hok, hend⟩
      · exact absurd hroom hfull

/-- **A server connection over every byte stream and every way to cut it.** Whatever the
pool and the memory hold at each read, the connection keeps its place in the stream (it
has made the calls for the complete frames before the first bad head, a bad head has
closed it, and no assertion failed), unless the pool exits at its memory limit; if and
only if no read ends where the bytes so far end with a frame without a body. -/
theorem no_assert_iff (chunks : List (List UInt8)) (hne : ∀ xs ∈ chunks, xs ≠ [])
    (hfit : FitsPool chunks) :
    (∀ rs : List Read, rs.map Read.bytes = chunks →
      Runs.AlwaysUpTo (· = .memoryLimit) TcpConn.step (fun pre c => Arrived (received pre) c)
        TcpConn.new rs) ↔
    ∀ pre, pre <+: chunks → ¬ EndsEmpty pre.flatten := by
  constructor
  · intro hall pre hpre
    exact (not_endsEmpty_of_runs hne hfit (hall _ (map_bareRead chunks)) pre hpre).2
  · intro hC rs hrs
    refine Runs.alwaysUpTo_of_step arrived_new ?_
    intro pre r hpre c hrun harr
    have hpre' : pre.map Read.bytes ++ [r.bytes] <+: chunks := by
      have hmap := hpre.map Read.bytes
      rw [List.map_append, List.map_singleton, hrs] at hmap
      exact hmap
    have hxs : r.bytes ≠ [] := hne _ (hpre'.subset (by simp))
    have hflat : (pre.map Read.bytes ++ [r.bytes]).flatten = received pre ++ r.bytes := by
      simp [received]
    have hend := hC _ hpre'
    rw [hflat] at hend
    rw [received_snoc]
    rcases step_arrived harr hxs (hfit _ _ hpre') hend with hok | ⟨herr, -⟩
    · exact Or.inl hok
    · exact Or.inr ⟨_, herr, rfl⟩

/-- A head that announces no body. -/
def emptyHead : List UInt8 := (MsgHead.mk 1 0).toBytes

theorem endsEmpty_emptyHead (rest : List UInt8) : EndsEmpty (emptyHead ++ rest) ↔ rest = [] ∨ EndsEmpty rest := by
  have h := endsEmpty_frame emptyHead [] rest (by decide) (by decide) (by decide)
  rw [List.append_nil] at h
  simpa using h

/-- A stream that is read at once fits when it is not longer than the largest buffer. -/
theorem fitsPool_single {xs : List UInt8} (h : (xs.length : ℤ) ≤ 8388608) : FitsPool [xs] := by
  intro pre ys hpre
  have hnil : pre = [] := by
    have hle := hpre.length_le
    rw [List.length_append, List.length_singleton, List.length_singleton] at hle
    exact List.length_eq_zero_iff.1 (by omega)
  subst hnil
  have hys : ys = xs := by simpa using hpre
  rw [hys, List.flatten_nil, parse_nil]
  simpa using h

/-- The server waits for the next head when one byte of it came with an empty frame. -/
theorem no_assert_split :
    Runs.AlwaysUpTo (· = .memoryLimit) TcpConn.step (fun pre c => Arrived (received pre) c)
      TcpConn.new [⟨emptyHead ++ [7], BufPool.bare, fun _ => 0⟩] := by
  refine (no_assert_iff [emptyHead ++ [7]] (by decide) (fitsPool_single (by decide))).2 ?_ _ rfl
  intro pre hpre
  rcases List.prefix_cons_iff.1 hpre with rfl | ⟨t, rfl, ht⟩
  · exact not_endsEmpty_of_stop (by rw [List.flatten_nil, parse_nil])
  · rw [List.prefix_nil.1 ht, List.flatten_singleton, endsEmpty_emptyHead, not_or]
    exact ⟨by decide, not_endsEmpty_of_stop (by rw [parse_short (by decide)])⟩

/-- The head of an empty message, read alone, takes the server down. -/
theorem no_assert_fails : emptyHead ≠ [] ∧ FitsPool [emptyHead] ∧
    TcpConn.new.step ⟨emptyHead, BufPool.bare, fun _ => 0⟩ = .error .assertFail ∧
    ¬ ∀ rs : List Read, rs.map Read.bytes = [emptyHead] →
      Runs.AlwaysUpTo (· = .memoryLimit) TcpConn.step (fun pre c => Arrived (received pre) c)
        TcpConn.new rs := by
  have hstep := step_assert (r := ⟨emptyHead, BufPool.bare, fun _ => 0⟩) arrived_new (by decide)
    (by rw [parse_nil]; decide) BufPool.bare_hasRoom
    ((endsEmpty_emptyHead []).2 (Or.inl rfl))
  refine ⟨by decide, fitsPool_single (by decide), hstep, ?_⟩
  intro hall
  rcases hall [⟨emptyHead, BufPool.bare, fun _ => 0⟩] rfl _ (List.prefix_refl _) with
    ⟨t, ht, -⟩ | ⟨f, hf, rfl⟩
  · rw [← List.nil_append [_], Runs.run_snoc (Runs.run_nil _), hstep] at ht
    cases ht
  · rw [← List.nil_append [_], Runs.run_snoc (Runs.run_nil _), hstep] at hf
    cases hf

end LbRpc
