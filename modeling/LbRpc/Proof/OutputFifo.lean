import LbRpc.Reactor.OutputQueue

/-!
# An output buffer is a queue

* `IsQueue`: what the kernel has, followed by the bytes in the buffer, is the data that was
  taken in, and the bytes in the buffer start it.
* `sends_fifo`: this holds throughout every run, and a `send_data` that fails leaves the bytes.
* `sends_total`: below the memory limit of the pool, no call of a run fails.
-/

namespace LbRpc

open Runs

namespace OutputQueue

variable {s s' : OutputQueue} {bs data : List UInt8}

/-- **Bytes are neither lost, repeated nor reordered.** -/
structure IsQueue (s : OutputQueue) : Prop where
  fifo : s.taken ++ s.pending = s.accepted
  atStart : s.obuf.AtStart

/-- The data and what is pending are together within `int`. -/
def Within (s : OutputQueue) : Event → Prop
  | .sendData data _ _ => (data.length : ℤ) + s.obuf.length < 2 ^ 31
  | .write2fd _ => True

instance (s : OutputQueue) (e : Event) : Decidable (s.Within e) := by
  cases e with
  | sendData data junk p => exact inferInstanceAs (Decidable ((data.length : ℤ) + s.obuf.length < 2 ^ 31))
  | write2fd room => exact inferInstanceAs (Decidable True)

/-- A call of `send_data` that returns -1 leaves what is pending. -/
def RefusalKeeps (s : OutputQueue) (e : Event) : Prop :=
  ∀ s' data, step s e = .ok s' → s'.sends = s.sends ++ [(data, -1)] → s'.pending = s.pending

/-- The bytes `bs` are what is left of the data that was taken in. -/
structure Left (s : OutputQueue) (bs : List UInt8) : Prop where
  holds : s.obuf.Holds bs
  atStart : s.obuf.AtStart
  fifo : s.taken ++ bs = s.accepted

theorem left_new : new.Left [] := ⟨ReactorBuf.holds_empty, trivial, rfl⟩

theorem pending_eq (h : s.obuf.Holds bs) : s.pending = bs := by
  have hlen : s.obuf.length.toNat = bs.length := by
    have := h.length
    omega
  have hall : s.obuf.Holds (bs ++ []) := by
    rw [List.append_nil]
    exact h
  unfold pending
  rw [hlen]
  exact hall.behind

theorem Left.isQueue (h : s.Left bs) : s.IsQueue where
  fifo := by
    rw [pending_eq h.holds]
    exact h.fifo
  atStart := h.atStart

theorem accepted_ok : accepted { s with sends := s.sends ++ [(data, 0)] } = s.accepted ++ data := by
  simp [accepted]

theorem accepted_refused : accepted { s with sends := s.sends ++ [(data, -1)] } = s.accepted := by
  simp [accepted]

/-- **A `send_data`** puts its data behind what is left, is refused and changes nothing, or ends
the process at the memory limit. -/
theorem Left.sendData (h : s.Left bs) {junk : ℤ → UInt8} {p : BufPool}
    (hint : (data.length : ℤ) + s.obuf.length < 2 ^ 31) :
    (step s (.sendData data junk p) = .error .memoryLimit ∧ ¬ p.HasRoom) ∨
      step s (.sendData data junk p) = .ok { s with sends := s.sends ++ [(data, -1)] } ∨
      ∃ obuf, step s (.sendData data junk p) = .ok { s with obuf := obuf, sends := s.sends ++ [(data, 0)] } ∧
        Left { s with obuf := obuf, sends := s.sends ++ [(data, 0)] } (bs ++ data) := by
  unfold step
  dsimp only
  rw [ReactorBuf.sumOverflows_false hint, if_neg Bool.false_ne_true]
  rcases ReactorBuf.sendData_cases h.holds h.atStart data p junk with
    ⟨herr, hfull⟩ | ⟨-, p', hrefused⟩ | ⟨obuf, p', hok, hholds, h0⟩
  · rw [herr]
    exact Or.inl ⟨rfl, hfull⟩
  · rw [hrefused]
    exact Or.inr (Or.inl rfl)
  · rw [hok]
    refine Or.inr (Or.inr ⟨obuf, rfl, hholds, h0, ?_⟩)
    have hacc : accepted { s with obuf := obuf, sends := s.sends ++ [(data, 0)] } = s.accepted ++ data :=
      accepted_ok
    rw [hacc, ← h.fifo, List.append_assoc]

/-- What was refused is not counted. -/
theorem Left.refused (h : s.Left bs) : Left { s with sends := s.sends ++ [(data, -1)] } bs := by
  refine ⟨h.holds, h.atStart, ?_⟩
  rw [accepted_refused]
  exact h.fifo

/-- **A `write2fd`** moves bytes from the front of what is left to the kernel. -/
theorem Left.write2fd (h : s.Left bs) (room : ℕ) :
    ∃ s' bs', step s (.write2fd room) = .ok s' ∧ s'.sends = s.sends ∧ s'.Left bs' := by
  unfold step
  dsimp only
  by_cases hpos : 0 < s.obuf.length
  · rw [if_pos hpos]
    have hne : bs ≠ [] := by
      rintro rfl
      have hlen := h.holds.length
      rw [List.length_nil] at hlen
      omega
    obtain ⟨taken, obuf, rest, hwrite, rfl, hholds, h0⟩ :=
      ReactorBuf.write2fd_ok h.holds h.atStart (h.holds.buf_ne_none hne) room
    rw [hwrite]
    refine ⟨_, rest, rfl, rfl, hholds, h0, ?_⟩
    have hfifo := h.fifo
    rw [← List.append_assoc] at hfifo
    exact hfifo
  · rw [if_neg hpos]
    exact ⟨s, bs, rfl, rfl, h⟩

/-- **One call.** Only the memory limit can end the process. -/
theorem Left.step (h : s.Left bs) {e : Event} (hint : s.Within e) :
    (∃ s' bs', OutputQueue.step s e = .ok s' ∧ s'.Left bs') ∨
      (OutputQueue.step s e = .error .memoryLimit ∧ ∃ data junk p, e = .sendData data junk p ∧ ¬ p.HasRoom) := by
  cases e with
  | sendData data junk p =>
    rcases h.sendData hint with ⟨herr, hfull⟩ | hrefused | ⟨obuf, hok, hleft⟩
    · exact Or.inr ⟨herr, data, junk, p, rfl, hfull⟩
    · exact Or.inl ⟨_, bs, hrefused, h.refused⟩
    · exact Or.inl ⟨_, _, hok, hleft⟩
  | write2fd room =>
    obtain ⟨s', bs', hok, -, hleft⟩ := h.write2fd room
    exact Or.inl ⟨s', bs', hok, hleft⟩

/-- A refusal adds one call with -1, and no other call does. -/
theorem Left.refusalKeeps (h : s.Left bs) {e : Event} (hint : s.Within e) : s.RefusalKeeps e := by
  intro s' data' hs hsends
  cases e with
  | sendData data junk p =>
    rcases h.sendData hint with ⟨herr, -⟩ | hrefused | ⟨obuf, hok, -⟩
    · rw [herr] at hs
      cases hs
    · rw [hrefused] at hs
      cases hs
      rfl
    · rw [hok] at hs
      cases hs
      have hlast := List.append_cancel_left hsends
      simp at hlast
  | write2fd room =>
    obtain ⟨t, bs', hok, hsame, -⟩ := h.write2fd room
    rw [hok] at hs
    cases hs
    rw [hsame] at hsends
    simp at hsends

/-- What is left after a run within `int`. -/
theorem left_run {es : List Event} (hint : Along OutputQueue.step (fun _ s e => s.Within e) new es) :
    Throughout OutputQueue.step (fun _ s => ∃ bs, s.Left bs) new es := by
  refine throughout_of_along ⟨[], left_new⟩ ?_ hint
  rintro pre e s s' ⟨bs, h⟩ hwithin hs
  rcases h.step hwithin with ⟨t, bs', ht, hleft⟩ | ⟨herr, -⟩
  · rw [ht] at hs
    cases hs
    exact ⟨bs', hleft⟩
  · rw [herr] at hs
    cases hs

/-- **An output buffer is a queue of bytes.** In every run of `send_data` and `write2fd` whose
lengths are within `int`, what the kernel has and what is pending are together the data that
was taken in, the pending bytes start the buffer at each call, so that no assertion fails, and
a `send_data` that returns -1 leaves what is pending. -/
theorem sends_fifo (es : List Event) (hint : Along OutputQueue.step (fun _ s e => s.Within e) new es) :
    AlwaysUpTo (· = .memoryLimit) OutputQueue.step (fun _ s => s.IsQueue) new es ∧
      Along OutputQueue.step (fun _ s e => s.RefusalKeeps e) new es := by
  constructor
  · have hleft : AlwaysUpTo (· = .memoryLimit) OutputQueue.step (fun _ s => ∃ bs, s.Left bs) new es := by
      refine alwaysUpTo_of_step ⟨[], left_new⟩ ?_
      rintro pre e hpre s hs ⟨bs, h⟩
      rcases h.step (hint pre e hpre s hs) with ⟨s', bs', hs', hleft⟩ | ⟨herr, -⟩
      · exact Or.inl ⟨s', hs', bs', hleft⟩
      · exact Or.inr ⟨_, herr, rfl⟩
    exact hleft.imp fun _ s ⟨bs, h⟩ => h.isQueue
  · intro pre e hpre s hs
    obtain ⟨bs, h⟩ := left_run hint pre ((List.prefix_append pre [e]).trans hpre) s hs
    exact h.refusalKeeps (hint pre e hpre s hs)

/-- Three bytes, of which the kernel takes two, one more byte, and a write for the rest. -/
def mixed : List Event :=
  [.sendData [1, 2, 3] (fun _ => 0) .bare, .write2fd 2, .sendData [4] (fun _ => 0) .bare, .write2fd 0,
    .write2fd 9]

theorem fifo_mixed : ∃ s, run OutputQueue.step new mixed = .ok s ∧ s.IsQueue ∧ s.taken = [1, 2, 3, 4] := by
  have hint : Along OutputQueue.step (fun _ s e => s.Within e) new mixed :=
    along_of_check (c := fun s e => decide (s.Within e)) (by decide) fun _ _ _ hc => of_decide_eq_true hc
  obtain ⟨s, hs, htaken⟩ : ∃ s, run OutputQueue.step new mixed = .ok s ∧ s.taken = [1, 2, 3, 4] :=
    ok_of_toOption (by decide)
  rcases (sends_fifo mixed hint).1 mixed (List.prefix_refl _) with ⟨t, ht, hqueue⟩ | ⟨f, hf, -⟩
  · rw [hs] at ht
    cases ht
    exact ⟨s, hs, hqueue, htaken⟩
  · rw [hs] at hf
    cases hf

/-- **Below the memory limit no call fails**, and the run gets to its end. -/
theorem sends_total (es : List Event) (hint : Along OutputQueue.step (fun _ s e => s.Within e) new es)
    (hroom : ∀ data junk p, .sendData data junk p ∈ es → p.HasRoom) :
    Always OutputQueue.step (fun _ s => s.IsQueue) new es := by
  have hleft : Always OutputQueue.step (fun _ s => ∃ bs, s.Left bs) new es := by
    refine always_of_step ⟨[], left_new⟩ ?_
    rintro pre e hpre s hs ⟨bs, h⟩
    rcases h.step (hint pre e hpre s hs) with ⟨s', bs', hs', hleft⟩ | ⟨-, data, junk, p, rfl, hfull⟩
    · exact ⟨s', hs', bs', hleft⟩
    · have hmem : Event.sendData data junk p ∈ es :=
        hpre.subset (List.mem_append_right _ List.mem_cons_self)
      exact absurd (hroom data junk p hmem) hfull
  exact hleft.imp fun _ s ⟨bs, h⟩ => h.isQueue

end OutputQueue

end LbRpc
