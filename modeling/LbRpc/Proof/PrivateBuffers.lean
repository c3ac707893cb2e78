import LbRpc.Base.Simulation
import LbRpc.Proof.BufferPlaces
import LbRpc.Reactor.ReactorBuf

/-!
# The pool keeps its users apart

`PoolUsers` shares buffers by pointer, and a call can be interrupted between its two uses of
the pool. A `ReactorBuf` has its buffer to itself, as a value.

* `start_frame`, `finish_frame`: a call leaves alone what other objects point to.
* `start_private`, `finish_private`: a call by pointer does what the call by value does.
* `PoolUsers.objects_private`: whichever way the calls interleave, each object is what its own
  calls make of a `ReactorBuf`, and a crash is one of its own calls.
-/

namespace LbRpc

open IntrusiveList

namespace BufCall

variable (rb : ReactorBuf) (P : BufPool)

/-- The call on a buffer that is a value, when it meets the pool `P`. -/
def onValue : BufCall → Except Crash ReactorBuf
  | .pop len => (rb.pop len P).map Prod.fst
  | .clear => (rb.clear P).map Prod.fst
  | .adjust => rb.adjust
  | .readData none got junk => (rb.readData none got junk P).map fun r => r.2.1
  | .readData (some need_read) got junk =>
    if rb.sumOverflows need_read then .error .outOfBounds
    else (rb.readData (some need_read) got junk P).map fun r => r.2.1
  | .sendData bs junk =>
    if rb.sumOverflows bs.length then .error .outOfBounds
    else (rb.sendData bs junk P).map fun r => r.2.1
  | .write2fd room => (rb.write2fd room).map fun r => r.2.2

/-- What is left to do once there is room. -/
def fillValue (b : IOBuf) : BufCall → Except Crash IOBuf
  | .readData (some need_read) got _ =>
    match got with
    | none => .ok b
    | some bs =>
      if bs = [] then .ok b
      else if need_read ≠ 0 ∧ bs.length ≠ need_read then .error .assertFail
      else b.append bs
  | .sendData bs _ => b.append bs
  | _ => .ok b

/-- What is left to do once a larger buffer is taken. -/
def finishValue (b new_buf : IOBuf) (e : BufCall) : Except Crash ReactorBuf :=
  match new_buf.copy b with
  | .error f => .error f
  | .ok new_buf => (e.fillValue new_buf).map fun b => ⟨some b⟩

/-- The room that a call wants, and what new memory holds. -/
def wants : BufCall → Option (ℤ × (ℤ → UInt8))
  | .readData (some need_read) _ junk => some (need_read, junk)
  | .sendData bs junk => some (bs.length, junk)
  | _ => none

variable {rb P} {e : BufCall} {n : ℤ} {junk : ℤ → UInt8}

/-- A call that wants room goes through `reserve`. -/
theorem onValue_wants (he : e.wants = some (n, junk)) (hsum : rb.sumOverflows n = false) :
    e.onValue rb P =
      match rb.reserve n junk P with
      | .error f => .error f
      | .ok (none, _) => .ok rb
      | .ok (some b, _) => (e.fillValue b).map fun b => ⟨some b⟩ := by
  unfold wants at he
  split at he
  · rename_i need_read got junk'
    cases he
    unfold onValue ReactorBuf.readData
    dsimp only
    rw [hsum]
    rcases rb.reserve n junk P with f | ⟨_ | b, p⟩
    · rfl
    · rfl
    · unfold fillValue
      rcases got with _ | bs
      · rfl
      · dsimp only
        by_cases h1 : bs = []
        · rw [if_pos h1, if_pos h1]
          rfl
        · rw [if_neg h1, if_neg h1]
          by_cases h2 : n ≠ 0 ∧ (bs.length : ℤ) ≠ n
          · rw [if_pos h2, if_pos h2]
            rfl
          · rw [if_neg h2, if_neg h2]
            cases b.append bs <;> rfl
  · rename_i bs junk'
    cases he
    unfold onValue ReactorBuf.sendData
    dsimp only
    rw [hsum]
    rcases rb.reserve bs.length junk P with f | ⟨_ | b, p⟩
    · rfl
    · rfl
    · unfold fillValue
      dsimp only
      cases b.append bs <;> rfl
  · cases he

theorem onValue_overflow (he : e.wants = some (n, junk)) (hsum : rb.sumOverflows n = true) :
    e.onValue rb P = .error .outOfBounds := by
  unfold wants at he
  split at he
  · cases he
    exact if_pos hsum
  · cases he
    exact if_pos hsum
  · cases he

end BufCall

namespace PoolHeap

variable {p p' : PoolHeap} {free : MemCap → List BufAddr} {a x : BufAddr} {rb rb' : Option BufAddr}
  {b : IOBuf} {e : BufCall} {n : ℤ} {junk : ℤ → UInt8}

/-! ## What a call leaves alone -/

theorem setBuf_read (hx : x ≠ a) : (p.setBuf a b).heap.read x = p.heap.read x :=
  Heap.read_modify_ne hx

theorem revert_read (hr : p.revert a = .ok p') (hx : x ≠ a) : p'.heap.read x = p.heap.read x := by
  unfold revert at hr
  split at hr
  · cases hr
  split at hr
  · cases hr
  · cases hr
    exact Heap.read_modify_ne hx

theorem fill_read (hr : e.fill a p = .ok p') (hx : x ≠ a) : p'.heap.read x = p.heap.read x := by
  have happend : ∀ {bs : List UInt8}, (do return p.setBuf a (← (← p.buf a).append bs)) = Except.ok p' →
      p'.heap.read x = p.heap.read x := by
    intro bs hput
    obtain ⟨b, -, hput⟩ := bind_ok.1 hput
    obtain ⟨b', -, hput⟩ := bind_ok.1 hput
    cases hput
    exact setBuf_read hx
  unfold BufCall.fill at hr
  split at hr
  · unfold readFill at hr
    split at hr
    · cases hr
      rfl
    split at hr
    · cases hr
      rfl
    split at hr
    · cases hr
    · exact happend hr
  · exact happend hr
  · cases hr
    rfl

/-- `alloc_buf` touches what is free at most. -/
theorem allocBuf_frame (h : PoolOK p free) {r : Option BufAddr} (hr : p.allocBuf n junk = .ok (r, p'))
    (hx : Out p free x) : p'.heap.read x = p.heap.read x := by
  unfold allocBuf at hr
  split at hr
  · cases hr
    rfl
  rename_i c hc
  split at hr
  · split at hr
    · cases hr
    · cases hr
      obtain ⟨b, hb⟩ := hx.1
      exact Heap.read_alloc_ne (Heap.lt_next hb).ne
  · rename_i target hp
    split at hr
    · cases hr
    · cases hr
      have hlinks := h.links c
      rw [hp] at hlinks
      obtain ⟨q, t, ht, -, -⟩ := hlinks.uncons
      refine Heap.read_modify_ne ?_
      rintro rfl
      exact hx.2 c (by rw [ht]; exact List.mem_cons_self)

theorem reserve_frame (h : PoolOK p free) {r : Reserved} (hr : p.reserve n junk rb = .ok (r, p'))
    (hx : Out p free x) : p'.heap.read x = p.heap.read x := by
  unfold reserve at hr
  cases rb with
  | none =>
    obtain ⟨⟨got, q⟩, hq, hres⟩ := bind_ok.1 hr
    rcases got with _ | target <;> cases hres <;> exact allocBuf_frame h hq hx
  | some a =>
    obtain ⟨b, -, hres⟩ := bind_ok.1 hr
    split at hres
    · cases hres
    split at hres
    · split at hres
      · cases hres
      obtain ⟨⟨got, q⟩, hq, hlarger⟩ := bind_ok.1 hres
      rcases got with _ | target <;> cases hlarger <;> exact allocBuf_frame h hq hx
    · cases hres
      rfl

/-- **A call up to its second use of the pool** leaves alone what other objects point to. -/
theorem start_frame (h : PoolOK p free) (hrb : Held p free rb) {r : BufCall.Begun}
    (hr : e.start rb p = .ok (r, p')) (hx : Out p free x) (hne : rb ≠ some x) :
    p'.heap.read x = p.heap.read x := by
  have hended : ∀ {c : Except Crash (Option BufAddr × PoolHeap)}, BufCall.ended c = .ok (r, p') →
      (∀ rb' q, c = .ok (rb', q) → q.heap.read x = p.heap.read x) → p'.heap.read x = p.heap.read x := by
    intro c hc hq
    obtain ⟨⟨rb', q⟩, hcq, hc⟩ := bind_ok.1 hc
    cases hc
    exact hq rb' p' hcq
  have hfill : ∀ {n junk}, e.beginFill n junk rb p = .ok (r, p') → p'.heap.read x = p.heap.read x := by
    intro n junk hr
    unfold BufCall.beginFill at hr
    obtain ⟨⟨room, q⟩, hq, hrest⟩ := bind_ok.1 hr
    have hframe := reserve_frame h hq hx
    rcases reserve_spec h hrb hq with ⟨rfl, rfl⟩ | ⟨a, free', rfl, hs⟩ | ⟨a, new_buf, free', -, rfl, -⟩
    · cases hrest
      rfl
    · obtain ⟨q', hq', hrest⟩ := bind_ok.1 hrest
      cases hrest
      -- the buffer that is filled was the object's, or nobody's
      have hxa : x ≠ a := by
        rintro rfl
        rcases hs.fresh x rfl with hrx | hnew
        · exact hne hrx
        · exact hnew hx
      exact (fill_read hq' hxa).trans hframe
    · cases hrest
      exact hframe
  cases e with
  | pop len =>
    refine hended hr fun rb' q hq => ?_
    unfold pop at hq
    split at hq
    · cases hq
    rename_i a
    have hxa : x ≠ a := fun hxa => hne (by rw [hxa])
    obtain ⟨b, -, hq⟩ := bind_ok.1 hq
    split at hq
    · split at hq
      · obtain ⟨q', hq', hq⟩ := bind_ok.1 hq
        cases hq
        exact (revert_read hq' hxa).trans (setBuf_read hxa)
      · cases hq
        exact setBuf_read hxa
    · cases hq
  | clear =>
    refine hended hr fun rb' q hq => ?_
    unfold clear at hq
    split at hq
    · cases hq
      rfl
    · obtain ⟨q', hq', hq⟩ := bind_ok.1 hq
      cases hq
      exact revert_read hq' fun hxa => hne (by rw [hxa])
  | adjust =>
    refine hended hr fun rb' q hq => ?_
    unfold adjust at hq
    split at hq
    · cases hq
      rfl
    · obtain ⟨b, -, hq⟩ := bind_ok.1 hq
      obtain ⟨b', -, hq⟩ := bind_ok.1 hq
      cases hq
      exact setBuf_read fun hxa => hne (by rw [hxa])
  | readData fionread got junk =>
    cases fionread with
    | none =>
      cases hr
      rfl
    | some need_read => exact hfill hr
  | sendData bs junk => exact hfill hr
  | write2fd room =>
    refine hended hr fun rb' q hq => ?_
    unfold write2fd at hq
    split at hq
    · cases hq
    obtain ⟨b, -, hq⟩ := bind_ok.1 hq
    split at hq
    · cases hq
    split at hq
    · cases hq
      rfl
    obtain ⟨taken, -, hq⟩ := bind_ok.1 hq
    split at hq
    · cases hq
      rfl
    obtain ⟨b', -, hq⟩ := bind_ok.1 hq
    cases hq
    exact setBuf_read fun hxa => hne (by rw [hxa])

/-- **A call from its second use of the pool on** touches its own two buffers. -/
theorem finish_frame {new_buf : BufAddr} (hr : e.finish a new_buf p = .ok p') (hxa : x ≠ a)
    (hxn : x ≠ new_buf) : p'.heap.read x = p.heap.read x := by
  obtain ⟨q, hcopy, hr⟩ := bind_ok.1 hr
  obtain ⟨q', hrev, hfill⟩ := bind_ok.1 hr
  obtain ⟨nb, -, hcopy⟩ := bind_ok.1 hcopy
  obtain ⟨b, -, hcopy⟩ := bind_ok.1 hcopy
  obtain ⟨nb', -, hcopy⟩ := bind_ok.1 hcopy
  cases hcopy
  exact (fill_read hfill hxn).trans ((revert_read hrev hxa).trans (setBuf_read hxn))

/-! ## What a call does to its own buffer -/

/-- The pool as `BufPool` has it: the same buffers wait, as values. -/
structure Shows (p : PoolHeap) (free : MemCap → List BufAddr) (P : BufPool) : Prop where
  lists : ∀ c, (P.pool c).map (fun f => some f.buf) = (free c).map fun a => (p.heap.read a).map BufNode.buf
  totalMem : P.totalMem = p.totalMem

theorem PoolOK.shows (h : PoolOK p free) : ∃ P, Shows p free P := by
  have hlist : ∀ c (l : List BufAddr), (∀ a ∈ l, a ∈ free c) → ∃ fs : List (FreeBuf c),
      fs.map (fun f => some f.buf) = l.map fun a => (p.heap.read a).map BufNode.buf := by
    intro c l
    induction l with
    | nil => exact fun _ => ⟨[], rfl⟩
    | cons a l ih =>
      intro hl
      obtain ⟨fs, hfs⟩ := ih fun x hx => hl x (List.mem_cons_of_mem a hx)
      obtain ⟨b, hb, hcap, hlen, hhead⟩ := h.waiting c a (hl a List.mem_cons_self)
      refine ⟨⟨b.buf, hcap, hlen, hhead⟩ :: fs, ?_⟩
      rw [List.map_cons, List.map_cons, hfs, hb]
      rfl
  choose fs hfs using fun c => hlist c (free c) fun _ ha => ha
  exact ⟨⟨fs, p.totalMem⟩, hfs, rfl⟩

/-- The buffer behind a pointer, as a `ReactorBuf` has it. -/
def value (p : PoolHeap) (rb : Option BufAddr) : ReactorBuf :=
  ⟨rb.bind fun a => (p.heap.read a).map BufNode.buf⟩

theorem value_some (hb : p.buf a = .ok b) : p.value (some a) = ⟨some b⟩ := by
  unfold buf at hb
  unfold value
  dsimp only [Option.bind]
  split at hb
  · cases hb
  · rename_i node hnode
    cases hb
    rw [hnode]
    rfl

theorem value_congr (hread : p'.heap.read a = p.heap.read a) : p'.value (some a) = p.value (some a) := by
  unfold value
  dsimp only [Option.bind]
  rw [hread]

theorem buf_congr (hread : p'.heap.read a = p.heap.read a) : p'.buf a = p.buf a := by
  unfold buf
  rw [hread]

theorem Out.buf (ha : Out p free a) : ∃ b, p.buf a = .ok b := by
  obtain ⟨⟨node, hnode⟩, -⟩ := ha
  refine ⟨node.buf, ?_⟩
  unfold PoolHeap.buf
  rw [hnode]

theorem PoolOK.classed_buf (h : PoolOK p free) (hb : p.buf a = .ok b) : BufPool.Classed b := by
  unfold PoolHeap.buf at hb
  split at hb
  · cases hb
  · rename_i node hnode
    cases hb
    exact h.classed a node hnode

theorem setBuf_buf (hb : p.buf a = .ok b) (b' : IOBuf) : (p.setBuf a b').buf a = .ok b' := by
  unfold PoolHeap.buf at hb
  split at hb
  · cases hb
  · rename_i node hnode
    have hread : (p.setBuf a b').heap.read a = some { node with buf := b' } := by
      unfold setBuf
      rw [Heap.read_modify_self, hnode]
      rfl
    unfold PoolHeap.buf
    rw [hread]

/-- **`alloc_buf` by pointer takes the buffer that `alloc_buf` by value takes.** -/
theorem allocBuf_value (h : PoolOK p free) {P : BufPool} (hP : Shows p free P) (n : ℤ) (junk : ℤ → UInt8) :
    (∃ f, p.allocBuf n junk = .error f ∧ P.allocBuf n junk = .error f) ∨
      (p.allocBuf n junk = .ok (none, p) ∧ P.allocBuf n junk = .ok (none, P)) ∨
      ∃ a p' b P', p.allocBuf n junk = .ok (some a, p') ∧ P.allocBuf n junk = .ok (some b, P') ∧
        p'.buf a = .ok b ∧ ¬Out p free a := by
  unfold allocBuf BufPool.allocBuf
  rcases hindex : BufPool.index n with _ | c
  · exact Or.inr (Or.inl ⟨rfl, rfl⟩)
  have hlinks := h.links c
  have hlist := hP.lists c
  dsimp only
  rcases hp : p.pool c with _ | a
  · -- no buffer waits, on either side
    have hfree : free c = [] := by
      rw [hp] at hlinks
      cases hfc : free c with
      | nil => rfl
      | cons a l =>
        rw [hfc] at hlinks
        cases hlinks.1
    rw [hfree, List.map_nil, List.map_eq_nil_iff] at hlist
    rw [hlist, hP.totalMem]
    dsimp only
    by_cases hlim : extraMemLimit ≤ p.totalMem + c.size / 1024
    · rw [if_pos hlim, if_pos hlim]
      exact Or.inl ⟨.memoryLimit, rfl, rfl⟩
    · rw [if_neg hlim, if_neg hlim]
      refine Or.inr (Or.inr ⟨_, _, _, _, rfl, rfl, ?_, ?_⟩)
      · unfold PoolHeap.buf
        rw [Heap.read_alloc_next]
      · rintro ⟨⟨node, hnode⟩, -⟩
        rw [Heap.read_next] at hnode
        cases hnode
  · -- the same buffer is in front
    rw [hp] at hlinks
    obtain ⟨q, t, ht, -, -⟩ := hlinks.uncons
    have ha : a ∈ free c := by rw [ht]; exact List.mem_cons_self
    obtain ⟨node, hnode, -⟩ := h.waiting c a ha
    rw [ht, List.map_cons, hnode] at hlist
    obtain ⟨f, fs, hfs, hf, -⟩ := List.map_eq_cons_iff.1 hlist
    dsimp only
    rw [hnode, hfs]
    refine Or.inr (Or.inr ⟨_, _, _, _, rfl, rfl, ?_, fun hout => hout.2 c ha⟩)
    have hread : (p.heap.modify a fun b => { b with next := none }).read a = some { node with next := none } := by
      rw [Heap.read_modify_self, hnode]
      rfl
    unfold PoolHeap.buf
    dsimp only
    rw [hread, Option.some.inj hf]

/-- The end of a call by pointer. -/
theorem fill_value (hb : p.buf a = .ok b) (e : BufCall) :
    Runs.Matches (fun q b' => q.buf a = .ok b') Eq (e.fill a p) (e.fillValue b) := by
  have happend : ∀ bs : List UInt8, Runs.Matches (fun q b' => q.buf a = .ok b') Eq
      (do return p.setBuf a (← (← p.buf a).append bs)) (b.append bs) := by
    intro bs
    rw [hb]
    dsimp only [bind, Except.bind]
    rcases b.append bs with f | b'
    · exact .error rfl
    · exact .ok (setBuf_buf hb b')
  unfold BufCall.fill BufCall.fillValue
  cases e with
  | readData fionread got junk =>
    rcases fionread with _ | need_read
    · exact .ok hb
    · unfold readFill
      rcases got with _ | bs
      · exact .ok hb
      · dsimp only
        by_cases h1 : bs = []
        · rw [if_pos h1, if_pos h1]
          exact .ok hb
        · rw [if_neg h1, if_neg h1]
          by_cases h2 : need_read ≠ 0 ∧ (bs.length : ℤ) ≠ need_read
          · rw [if_pos h2, if_pos h2]
            exact .error rfl
          · rw [if_neg h2, if_neg h2]
            exact happend bs
  | sendData bs junk => exact happend bs
  | pop len => exact .ok hb
  | clear => exact .ok hb
  | adjust => exact .ok hb
  | write2fd room => exact .ok hb

/-- **The rest of a call by pointer**, with the larger buffer that it took. -/
theorem finish_value (h : PoolOK p free) {new_buf : BufAddr} (ha : Out p free a) (hn : Out p free new_buf)
    (hne : new_buf ≠ a) {nb : IOBuf} (hb : p.buf a = .ok b) (hnb : p.buf new_buf = .ok nb) (e : BufCall) :
    Runs.Matches (fun q rb => q.value (some new_buf) = rb) Eq (e.finish a new_buf p)
      (e.finishValue b nb) := by
  unfold BufCall.finish BufCall.finishValue copyTo
  rw [hb, hnb]
  dsimp only [bind, Except.bind]
  rcases hcopy : nb.copy b with f | nb'
  · exact .error rfl
  · obtain ⟨hok, hout⟩ := setBuf_spec h hn hnb (IOBuf.copy_capacity hcopy)
    obtain ⟨q, free', hrev, -, -⟩ := revert_spec hok ((hout a).2 ha)
    have hq : q.buf new_buf = .ok nb' :=
      (buf_congr (revert_read hrev hne)).trans (setBuf_buf hnb nb')
    have hfill := fill_value hq e
    dsimp only [pure, Except.pure]
    rw [hrev]
    dsimp only
    revert hfill
    generalize e.fill new_buf q = x
    generalize e.fillValue nb' = y
    rintro (hok | herr)
    · exact .ok (value_some hok)
    · exact .error herr

/-- **How a call by pointer begins**, when the call by value is made on `w` and comes to `v`. -/
inductive Goes (e : BufCall) (rb : Option BufAddr) (w : ReactorBuf) (v : Except Crash ReactorBuf) :
    Except Crash (BufCall.Begun × PoolHeap) → Prop
  | error {f} : v = .error f → Goes e rb w v (.error f)
  | ended {rb' q} : v = .ok (q.value rb') → Goes e rb w v (.ok (.ended rb', q))
  /-- the outcome is that of the rest of the call, on the two buffers as they are now -/
  | larger {a new_buf q b nb} : rb = some a → w = ⟨some b⟩ → q.buf a = .ok b → q.buf new_buf = .ok nb →
      v = e.finishValue b nb → Goes e rb w v (.ok (.larger new_buf, q))

theorem Goes.of_fill {w : ReactorBuf} {v : Except Crash ReactorBuf} (hb : p'.buf a = .ok b)
    (hv : v = (e.fillValue b).map fun b => ⟨some b⟩) :
    Goes e rb w v (do return (.ended (some a), ← e.fill a p')) := by
  have hfill := fill_value hb e
  rw [hv]
  dsimp only [bind, Except.bind, pure, Except.pure]
  revert hfill
  generalize e.fill a p' = x
  generalize e.fillValue b = y
  rintro (hok | herr)
  · refine .ended ?_
    rw [value_some hok]
    rfl
  · refine .error ?_
    rw [herr]
    rfl

/-- A call that wants room. -/
theorem beginFill_value (h : PoolOK p free) (hrb : Held p free rb) {P : BufPool} (hP : Shows p free P)
    (he : e.wants = some (n, junk)) :
    Goes e rb (p.value rb) (e.onValue (p.value rb) P) (e.beginFill n junk rb p) := by
  unfold BufCall.beginFill reserve
  rcases rb with _ | a
  · -- the first buffer of the object
    have hsum : (p.value none).sumOverflows n = false := rfl
    rw [BufCall.onValue_wants he hsum]
    unfold ReactorBuf.reserve
    rw [show (p.value none).buf = none from rfl]
    dsimp only
    rcases allocBuf_value h hP n junk with
      ⟨f, hp, hv⟩ | ⟨hp, hv⟩ | ⟨a, q, b, P', hp, hv, hb, -⟩
    · rw [hp, hv]
      exact .error rfl
    · rw [hp, hv]
      exact .ended rfl
    · rw [hp, hv]
      exact .of_fill hb rfl
  · have hout := hrb a rfl
    obtain ⟨b, hb⟩ := hout.buf
    have hval := value_some hb
    rw [hval]
    dsimp only [bind, Except.bind, pure, Except.pure]
    rw [hb]
    dsimp only
    by_cases hhead : b.head ≠ 0
    · -- both sides fail the assertion
      have hsum : (⟨some b⟩ : ReactorBuf).sumOverflows n = false := by
        unfold ReactorBuf.sumOverflows
        rw [decide_eq_false_iff_not]
        exact fun hc => hhead hc.1
      rw [BufCall.onValue_wants he hsum, if_pos hhead]
      unfold ReactorBuf.reserve
      dsimp only
      rw [if_pos hhead]
      exact .error rfl
    rw [if_neg hhead]
    by_cases hroom : b.capacity - b.length < n
    · rw [if_pos hroom]
      by_cases hbig : 2 ^ 31 ≤ n + b.length
      · have hsum : (⟨some b⟩ : ReactorBuf).sumOverflows n = true := by
          unfold ReactorBuf.sumOverflows
          exact decide_eq_true ⟨not_not.1 hhead, hroom, hbig⟩
        rw [BufCall.onValue_overflow he hsum, if_pos hbig]
        exact .error rfl
      · have hsum : (⟨some b⟩ : ReactorBuf).sumOverflows n = false := by
          unfold ReactorBuf.sumOverflows
          rw [decide_eq_false_iff_not]
          exact fun hc => hbig hc.2.2
        rw [BufCall.onValue_wants he hsum, if_neg hbig]
        unfold ReactorBuf.reserve
        dsimp only
        rw [if_neg hhead, if_pos hroom]
        rcases allocBuf_value h hP (n + b.length) junk with
          ⟨f, hp, hv⟩ | ⟨hp, hv⟩ | ⟨new_buf, q, nb, P', hp, hv, hnb, -⟩
        · rw [hp, hv]
          exact .error rfl
        · rw [hp, hv]
          exact .ended (by rw [hval])
        · -- the larger buffer: the rest of the call is still to come
          rw [hp, hv]
          have hba : q.buf a = .ok b := (buf_congr (allocBuf_frame h hp hout)).trans hb
          refine .larger rfl rfl hba hnb ?_
          unfold BufCall.finishValue
          dsimp only
          rcases nb.copy b with f | nb'
          · rfl
          · obtain ⟨P'', hrev⟩ := BufPool.revert_ok (p := P') (h.classed_buf hb)
            dsimp only
            rw [hrev]
    · -- there is room
      have hsum : (⟨some b⟩ : ReactorBuf).sumOverflows n = false := by
        unfold ReactorBuf.sumOverflows
        rw [decide_eq_false_iff_not]
        exact fun hc => hroom hc.2.1
      rw [BufCall.onValue_wants he hsum, if_neg hroom]
      unfold ReactorBuf.reserve
      dsimp only
      rw [if_neg hhead, if_neg hroom]
      exact .of_fill hb rfl

/-- **A call up to its second use of the pool** is the call by value, or goes on with what
that comes to. -/
theorem start_value (h : PoolOK p free) (hrb : Held p free rb) {P : BufPool} (hP : Shows p free P)
    (e : BufCall) : Goes e rb (p.value rb) (e.onValue (p.value rb) P) (e.start rb p) := by
  cases e with
  | pop len =>
    unfold BufCall.start BufCall.ended pop BufCall.onValue ReactorBuf.pop
    rcases rb with _ | a
    · exact .error rfl
    · have hout := hrb a rfl
      obtain ⟨b, hb⟩ := hout.buf
      rw [value_some hb]
      dsimp only [bind, Except.bind, pure, Except.pure]
      rw [hb]
      dsimp only
      by_cases hlen : len ≤ b.length
      · rw [if_pos hlen, if_pos hlen]
        by_cases hempty : (b.pop len).length = 0
        · -- the buffer goes back
          rw [if_pos hempty, if_pos hempty]
          obtain ⟨hok, hout'⟩ := setBuf_spec h hout hb (show (b.pop len).capacity = b.capacity from rfl)
          obtain ⟨q, free', hq, -, -⟩ := revert_spec hok ((hout' a).2 hout)
          have hcl : BufPool.Classed b := h.classed_buf hb
          obtain ⟨P', hrev⟩ := BufPool.revert_ok (p := P) (b := b.pop len) hcl
          rw [hq, hrev]
          exact .ended rfl
        · rw [if_neg hempty, if_neg hempty]
          refine .ended ?_
          rw [value_some (setBuf_buf hb _)]
          rfl
      · rw [if_neg hlen, if_neg hlen]
        exact .error rfl
  | clear =>
    unfold BufCall.start BufCall.ended clear BufCall.onValue ReactorBuf.clear
    rcases rb with _ | a
    · exact .ended rfl
    · have hout := hrb a rfl
      obtain ⟨b, hb⟩ := hout.buf
      obtain ⟨q, free', hq, -, -⟩ := revert_spec h hout
      obtain ⟨P', hrev⟩ := BufPool.revert_ok (p := P) (h.classed_buf hb)
      rw [value_some hb]
      dsimp only [bind, Except.bind, pure, Except.pure]
      rw [hq, hrev]
      exact .ended rfl
  | adjust =>
    unfold BufCall.start BufCall.ended adjust BufCall.onValue ReactorBuf.adjust
    rcases rb with _ | a
    · exact .ended rfl
    · obtain ⟨b, hb⟩ := (hrb a rfl).buf
      rw [value_some hb]
      dsimp only [bind, Except.bind, pure, Except.pure]
      rw [hb]
      dsimp only
      rcases b.adjust with f | b'
      · exact .error rfl
      · refine .ended ?_
        rw [value_some (setBuf_buf hb _)]
  | readData fionread got junk =>
    rcases fionread with _ | need_read
    · exact .ended rfl
    · exact beginFill_value h hrb hP rfl
  | sendData bs junk => exact beginFill_value h hrb hP rfl
  | write2fd room =>
    unfold BufCall.start BufCall.ended write2fd BufCall.onValue ReactorBuf.write2fd
    rcases rb with _ | a
    · exact .error rfl
    · obtain ⟨b, hb⟩ := (hrb a rfl).buf
      have hval := value_some hb
      rw [hval]
      dsimp only [bind, Except.bind, pure, Except.pure]
      rw [hb]
      dsimp only
      by_cases hhead : b.head ≠ 0
      · rw [if_pos hhead, if_pos hhead]
        exact .error rfl
      rw [if_neg hhead, if_neg hhead]
      rcases room with _ | room
      · exact .ended (by rw [hval]; rfl)
      dsimp only
      rcases b.peek (min room b.length.toNat) with f | taken
      · exact .error rfl
      dsimp only
      by_cases hnone : taken = []
      · rw [if_pos hnone, if_pos hnone]
        exact .ended (by rw [hval]; rfl)
      rw [if_neg hnone, if_neg hnone]
      rcases (b.pop taken.length).adjust with f | b'
      · exact .error rfl
      · refine .ended ?_
        rw [value_some (setBuf_buf hb _)]
        rfl

end PoolHeap

/-- A call by value, and the pool that it meets. -/
def ReactorBuf.step (rb : ReactorBuf) (c : BufCall × BufPool) : Except Crash ReactorBuf := c.1.onValue rb c.2

namespace PoolUsers

open PoolHeap

variable {ι : Type*} [DecidableEq ι] {s s' : PoolUsers ι} {free : MemCap → List BufAddr} {i : ι}
  {turns : List (ι × Turn)}

/-- What an object has in its buffer. -/
def value (s : PoolUsers ι) (i : ι) : ReactorBuf := s.pool.value (s.buf i)

/-- The call that an object begins. -/
def begins (i : ι) : ι × Turn → Option BufCall
  | (j, .call e) => if j = i then some e else none
  | (_, .resume) => none

/-- The calls of an object, in order. -/
def begun (i : ι) (turns : List (ι × Turn)) : List BufCall := turns.filterMap (begins i)

/-- The thread of an object makes a call only when the one before is over. -/
def OneCall (_ : List (ι × Turn)) (s : PoolUsers ι) : ι × Turn → Prop
  | (i, .call _) => s.busy i = none
  | (_, .resume) => True

instance (pre : List (ι × Turn)) (s : PoolUsers ι) : (e : ι × Turn) → Decidable (OneCall pre s e)
  | (i, .call _) => decidable_of_iff ((s.busy i).isNone = true) Option.isNone_iff_eq_none
  | (_, .resume) => inferInstanceAs (Decidable True)

/-- **An object with its buffer to itself**: what its calls make of a `ReactorBuf` that is a
value. A call that is interrupted comes to what its rest makes of the two buffers. -/
def Private (turns : List (ι × Turn)) (s : PoolUsers ι) (i : ι) : Prop :=
  ∃ cs : List (BufCall × BufPool), Runs.run ReactorBuf.step .empty cs = .ok (s.value i) ∧
    match s.busy i with
    | none => cs.map Prod.fst = begun i turns
    | some (new_buf, e) => cs.map Prod.fst ++ [e] = begun i turns ∧
      ∃ a b nb P, s.buf i = some a ∧ s.pool.buf a = .ok b ∧ s.pool.buf new_buf = .ok nb ∧
        e.onValue (s.value i) P = e.finishValue b nb

theorem begun_snoc (i : ι) (turns : List (ι × Turn)) (e : ι × Turn) :
    begun i (turns ++ [e]) = begun i turns ++ (begins i e).toList := by
  unfold begun
  rw [List.filterMap_append]
  cases h : begins i e <;> simp [h]

/-- A turn of another object that leaves alone what this one points to. -/
theorem Private.keep (h : Private turns s i) {e : ι × Turn} (he : begins i e = none)
    (hbuf : s'.buf i = s.buf i) (hbusy : s'.busy i = s.busy i)
    (hread : ∀ k x, s.held (i, k) = some x → s'.pool.heap.read x = s.pool.heap.read x) :
    Private (turns ++ [e]) s' i := by
  have hvalue : s'.value i = s.value i := by
    unfold value
    rw [hbuf]
    rcases hb : s.buf i with _ | a
    · rfl
    · exact value_congr (hread false a hb)
  obtain ⟨cs, hrun, hcs⟩ := h
  refine ⟨cs, by rw [hvalue]; exact hrun, ?_⟩
  rw [begun_snoc, he, hbusy, Option.toList_none, List.append_nil, hvalue, hbuf]
  rcases hb : s.busy i with _ | ⟨new_buf, c⟩
  · rw [hb] at hcs
    exact hcs
  · rw [hb] at hcs
    obtain ⟨hcalls, a, b, nb, P, ha, hba, hnb, hv⟩ := hcs
    exact ⟨hcalls, a, b, nb, P, ha, (buf_congr (hread false a ha)).trans hba,
      (buf_congr (hread true new_buf (held_of_busy hb))).trans hnb, hv⟩

omit [DecidableEq ι] in
/-- What an object points to, no other does. -/
theorem other_ne (h : Placed s.pool free s.held) {j : ι} (hij : i ≠ j) {k l : Bool} {x : BufAddr}
    (hx : s.held (i, k) = some x) : s.held (j, l) ≠ some x := by
  intro hy
  have heq := h.once _ _ x hx hy
  exact hij (congrArg Prod.fst heq)

theorem begins_self (i : ι) (e : BufCall) : begins i (i, .call e) = some e := if_pos rfl

theorem begins_other {j : ι} (hij : i ≠ j) (t : Turn) : begins i (j, t) = none := by
  cases t with
  | call e => exact if_neg hij.symm
  | resume => rfl

/-- A call that is over in one turn. -/
theorem Private.ended (hpriv : Private turns s i) (h : Placed s.pool free s.held) {c : BufCall}
    {rb : Option BufAddr} {p : PoolHeap} (hidle : s.busy i = none)
    (hstart : c.start (s.buf i) s.pool = .ok (.ended rb, p)) :
    Private (turns ++ [(i, .call c)]) { s with pool := p, buf := Function.update s.buf i rb } i := by
  obtain ⟨P, hP⟩ := h.ok.shows
  have hgoes := start_value h.ok (h.points (i, false)) hP c
  rw [show s.held (i, false) = s.buf i from rfl, hstart] at hgoes
  obtain ⟨cs, hrun, hcs⟩ := hpriv
  rw [hidle] at hcs
  cases hgoes with
  | ended hv =>
    refine ⟨cs ++ [(c, P)], ?_, ?_⟩
    · rw [Runs.run_snoc hrun]
      show c.onValue (s.value i) P = .ok (p.value (Function.update s.buf i rb i))
      rw [Function.update_self]
      exact hv
    · dsimp only
      rw [hidle, begun_snoc, begins_self, List.map_append, hcs]
      rfl

/-- A call that is interrupted with its larger buffer. -/
theorem Private.larger (hpriv : Private turns s i) (h : Placed s.pool free s.held) {c : BufCall}
    {new_buf : BufAddr} {p : PoolHeap} (hidle : s.busy i = none)
    (hstart : c.start (s.buf i) s.pool = .ok (.larger new_buf, p)) :
    Private (turns ++ [(i, .call c)]) { s with
      pool := p, busy := Function.update s.busy i (some (new_buf, c)) } i := by
  obtain ⟨P, hP⟩ := h.ok.shows
  have hgoes := start_value h.ok (h.points (i, false)) hP c
  rw [show s.held (i, false) = s.buf i from rfl, hstart] at hgoes
  obtain ⟨cs, hrun, hcs⟩ := hpriv
  rw [hidle] at hcs
  cases hgoes with
  | larger ha hw hba hnb hv =>
    rename_i a b nb
    have hvalue : p.value (s.buf i) = s.value i := by
      rw [ha, value_some hba]
      exact hw.symm
    refine ⟨cs, ?_, ?_⟩
    · rw [hrun]
      exact congrArg Except.ok hvalue.symm
    · dsimp only
      rw [Function.update_self]
      refine ⟨?_, a, b, nb, P, ha, hba, hnb, ?_⟩
      · rw [begun_snoc, begins_self, hcs]
        rfl
      · show c.onValue (p.value (s.buf i)) P = _
        rw [hvalue]
        exact hv

/-- A turn in which no call begins. -/
theorem begun_resume (i j : ι) (turns : List (ι × Turn)) :
    begun i (turns ++ [(j, .resume)]) = begun i turns := by
  have hnone : begins i (j, Turn.resume) = none := rfl
  rw [begun_snoc, hnone, Option.toList_none, List.append_nil]

/-- The rest of a call that was interrupted. -/
theorem Private.finished (hpriv : Private turns s i) (h : Placed s.pool free s.held) {c : BufCall}
    {new_buf a : BufAddr} {p : PoolHeap} (hbusy : s.busy i = some (new_buf, c)) (ha : s.buf i = some a)
    (hfinish : c.finish a new_buf s.pool = .ok p) :
    Private (turns ++ [(i, .resume)])
      ⟨p, Function.update s.buf i (some new_buf), Function.update s.busy i none⟩ i := by
  obtain ⟨cs, hrun, hcs⟩ := hpriv
  rw [hbusy] at hcs
  obtain ⟨hcalls, a', b, nb, P, ha', hb, hnb, hv⟩ := hcs
  obtain rfl := Option.some.inj (ha.symm.trans ha')
  have hmatch := finish_value h.ok (h.points (i, false) a ha) (h.points _ new_buf (held_of_busy hbusy))
    (new_buf_ne h hbusy ha) hb hnb c
  rw [hfinish, ← hv] at hmatch
  generalize hw : c.onValue (s.value i) P = w at hmatch
  cases hmatch with
  | ok hvalue =>
    refine ⟨cs ++ [(c, P)], ?_, ?_⟩
    · rw [Runs.run_snoc hrun]
      show c.onValue (s.value i) P = .ok (p.value (Function.update s.buf i (some new_buf) i))
      rw [hw, Function.update_self, hvalue]
    · dsimp only
      rw [Function.update_self, begun_resume, List.map_append]
      exact hcalls

/-- **A turn keeps every object private.** -/
theorem step_private (h : Placed s.pool free s.held) (hall : ∀ i, Private turns s i) {e : ι × Turn}
    (hone : OneCall turns s e) (hs : s.step e = .ok s') (i : ι) : Private (turns ++ [e]) s' i := by
  have hframe : ∀ {j : ι} {c : BufCall} {r p}, c.start (s.buf j) s.pool = .ok (r, p) → i ≠ j →
      ∀ k x, s.held (i, k) = some x → p.heap.read x = s.pool.heap.read x := fun hstart hij k x hx =>
    start_frame h.ok (h.points (_, false)) hstart (h.points (i, k) x hx) (other_ne h hij hx)
  cases stepped hs with
  | @busy j c x hbusy =>
    have hidle : s.busy j = none := hone
    rw [hidle] at hbusy
    cases hbusy
  | @ended j c rb p hidle hstart =>
    by_cases hij : i = j
    · subst hij
      exact (hall i).ended h hidle hstart
    · exact (hall i).keep (begins_other hij _) (Function.update_of_ne hij _ _) rfl (hframe hstart hij)
  | @larger j c new_buf p hidle hstart =>
    by_cases hij : i = j
    · subst hij
      exact (hall i).larger h hidle hstart
    · exact (hall i).keep (begins_other hij _) rfl (Function.update_of_ne hij _ _) (hframe hstart hij)
  | @idle j hidle =>
    obtain ⟨cs, hrun, hcs⟩ := hall i
    refine ⟨cs, hrun, ?_⟩
    rw [begun_resume]
    exact hcs
  | @finished j c new_buf a p hbusy ha hfinish =>
    by_cases hij : i = j
    · subst hij
      exact (hall i).finished h hbusy ha hfinish
    · refine (hall i).keep rfl (Function.update_of_ne hij _ _) (Function.update_of_ne hij _ _) ?_
      intro k x hx
      refine finish_frame hfinish ?_ ?_
      · rintro rfl
        exact other_ne h hij hx (show s.held (j, false) = some x from ha)
      · rintro rfl
        exact other_ne h hij hx (held_of_busy hbusy)

/-- **A crash is a crash of the object's own call.** -/
theorem step_crash (h : Placed s.pool free s.held) (hall : ∀ i, Private turns s i) {t : Turn} {f : Crash}
    (hone : OneCall turns s (i, t)) (hs : s.step (i, t) = .error f) :
    ∃ cs : List (BufCall × BufPool), Runs.run ReactorBuf.step .empty cs = .error f ∧
      cs.map Prod.fst = begun i (turns ++ [(i, t)]) := by
  obtain ⟨cs, hrun, hcs⟩ := hall i
  unfold step at hs
  cases t with
  | call c =>
    have hidle : s.busy i = none := hone
    rw [hidle] at hcs
    dsimp only at hs
    rw [hidle] at hs
    dsimp only at hs
    obtain ⟨P, hP⟩ := h.ok.shows
    have hgoes := start_value h.ok (h.points (i, false)) hP c
    rw [show s.held (i, false) = s.buf i from rfl] at hgoes
    split at hs
    · rename_i g hstart
      cases hs
      rw [hstart] at hgoes
      cases hgoes with
      | error hv =>
        refine ⟨cs ++ [(c, P)], ?_, ?_⟩
        · rw [Runs.run_snoc hrun]
          exact hv
        · rw [begun_snoc, begins_self, List.map_append, hcs]
          rfl
    · cases hs
    · cases hs
  | resume =>
    dsimp only at hs
    split at hs
    · cases hs
    rename_i new_buf c hbusy
    rw [hbusy] at hcs
    obtain ⟨hcalls, a, b, nb, P, ha, hb, hnb, hv⟩ := hcs
    rw [ha] at hs
    dsimp only at hs
    split at hs
    · rename_i g hfinish
      cases hs
      have hmatch := finish_value h.ok (h.points (i, false) a ha) (h.points _ new_buf (held_of_busy hbusy))
        (new_buf_ne h hbusy ha) hb hnb c
      rw [hfinish, ← hv] at hmatch
      generalize hw : c.onValue (s.value i) P = w at hmatch
      cases hmatch with
      | error hfail =>
        refine ⟨cs ++ [(c, P)], ?_, ?_⟩
        · rw [Runs.run_snoc hrun]
          show c.onValue (s.value i) P = .error f
          rw [hw, hfail]
        · rw [begun_resume, List.map_append]
          exact hcalls
    · cases hs

/-- **The pool keeps its users apart.** In every run, however the calls of the objects
interleave and wherever they are interrupted, each object has in its buffer what its own calls
make of a buffer that it has to itself, and a crash is one that its own calls lead to. -/
theorem objects_private (junk : ℤ → UInt8) (turns : List (ι × Turn))
    (hone : Runs.Along step OneCall (new junk) turns) :
    (∀ s, Runs.run step (new junk) turns = .ok s → ∀ i, Private turns s i) ∧
      ∀ pre i t s f, turns = pre ++ [(i, t)] → Runs.run step (new junk) pre = .ok s →
        s.step (i, t) = .error f →
        ∃ cs : List (BufCall × BufPool), Runs.run ReactorBuf.step .empty cs = .error f ∧
          cs.map Prod.fst = begun i turns := by
  have hall : Runs.Throughout step
      (fun pre s => (∃ free, Placed s.pool free s.held) ∧ ∀ i, Private pre s i) (new junk) turns := by
    refine Runs.throughout_of_along ⟨placed_new junk, fun i => ⟨[], rfl, rfl⟩⟩ ?_ hone
    rintro pre e s s' ⟨⟨free, hplaced⟩, hpriv⟩ he hs
    exact ⟨step_placed hplaced hs, step_private hplaced hpriv he hs⟩
  constructor
  · intro s hs
    exact (hall turns (List.prefix_refl _) s hs).2
  · rintro pre i t s f rfl hs hcrash
    obtain ⟨⟨free, hplaced⟩, hpriv⟩ := hall pre (List.prefix_append _ _) s hs
    exact step_crash hplaced hpriv (hone pre (i, t) (List.prefix_refl _) s hs) hcrash

/-- A turn interrupts no call but its own. -/
theorem step_busy_other {j : ι} {t : Turn} (hs : s.step (j, t) = .ok s') (hij : i ≠ j) :
    s'.busy i = s.busy i := by
  cases stepped hs with
  | busy _ => rfl
  | ended _ _ => rfl
  | larger _ _ => exact Function.update_of_ne hij _ _
  | idle _ => rfl
  | finished _ _ _ => exact Function.update_of_ne hij _ _

/-- Two connections, and four turns of their threads. -/
theorem objects_private_two :
    let turns : List (Bool × Turn) :=
      [(false, .call (.sendData [1, 2] fun _ => 0)), (true, .call (.sendData [3] fun _ => 0)),
        (false, .resume), (true, .resume)]
    (∀ s, Runs.run step (new fun _ => 0) turns = .ok s → ∀ i, Private turns s i) ∧
      ∀ pre i t s f, turns = pre ++ [(i, t)] → Runs.run step (new fun _ => 0) pre = .ok s →
        s.step (i, t) = .error f →
        ∃ cs : List (BufCall × BufPool), Runs.run ReactorBuf.step .empty cs = .error f ∧
          cs.map Prod.fst = begun i turns := by
  intro turns
  refine objects_private _ turns ?_
  refine Runs.along_cons.2 ⟨rfl, fun s hs => ?_⟩
  refine Runs.along_cons.2 ⟨?_, fun t _ => ?_⟩
  · exact step_busy_other hs (by decide)
  · refine Runs.along_cons.2 ⟨trivial, fun u _ => ?_⟩
    exact Runs.along_cons.2 ⟨trivial, fun _ _ => Runs.along_nil⟩

end PoolUsers

end LbRpc
