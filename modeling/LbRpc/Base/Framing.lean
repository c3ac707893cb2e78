import Mathlib.Data.List.TakeDrop
import Mathlib.Tactic.Common

/-!
# Length-prefixed framing

A `Format` has heads of a fixed length; a head announces the length of its body, or is
bad. `parse` cuts a byte string into its complete frames and what is left.

* `parse_append`: parsing can stop and go on with what was left and the next bytes, so
  it does not matter how a stream is cut.
* `parse_begun`: of a stream of frames, what parses of its first `n` elements is the frames
  that have arrived in full, and the rest of these elements, where the frames are well
  formed whose head is there.
* `parse_begun_bad`: a bad head stops the parse as soon as it is there.
-/

namespace Framing

variable {β η μ : Type*}

/-- A format of frames over `β` with heads in `η`. -/
structure Format (β η : Type*) where
  headLen : ℕ
  headLen_pos : 0 < headLen
  decode : List β → η
  size : η → ℕ
  bad : η → Bool

/-- The complete frames of a string, what is left of it, and whether a bad head stopped
the parse. Nothing is left after a bad head. -/
@[ext] structure Parsed (β η : Type*) where
  frames : List (η × List β)
  rest : List β
  bad : Bool

variable (F : Format β η)

/-- Cut a string into its complete frames. -/
def parse (bs : List β) : Parsed β η :=
  if bs.length < F.headLen then ⟨[], bs, false⟩
  else if F.bad (F.decode (bs.take F.headLen)) then ⟨[], [], true⟩
  else if bs.length < F.headLen + F.size (F.decode (bs.take F.headLen)) then ⟨[], bs, false⟩
  else
    let p := parse (bs.drop (F.headLen + F.size (F.decode (bs.take F.headLen))))
    { frames := (F.decode (bs.take F.headLen),
        (bs.drop F.headLen).take (F.size (F.decode (bs.take F.headLen)))) :: p.frames
      rest := p.rest
      bad := p.bad }
termination_by bs.length
decreasing_by
  have := F.headLen_pos
  rw [List.length_drop]
  omega

variable {F} {bs : List β}

theorem parse_short (h : bs.length < F.headLen) : parse F bs = ⟨[], bs, false⟩ := by
  rw [parse, if_pos h]

theorem parse_bad (h : F.headLen ≤ bs.length) (hb : F.bad (F.decode (bs.take F.headLen)) = true) :
    parse F bs = ⟨[], [], true⟩ := by
  rw [parse, if_neg (by omega), if_pos hb]

theorem parse_waiting (h : F.headLen ≤ bs.length)
    (hb : F.bad (F.decode (bs.take F.headLen)) = false)
    (hs : bs.length < F.headLen + F.size (F.decode (bs.take F.headLen))) :
    parse F bs = ⟨[], bs, false⟩ := by
  rw [parse, if_neg (by omega), if_neg (by simp [hb]), if_pos hs]

/-- A string that starts with a complete frame. -/
theorem parse_frame (hd body rest : List β) (hlen : hd.length = F.headLen)
    (hb : F.bad (F.decode hd) = false) (hs : F.size (F.decode hd) = body.length) :
    parse F (hd ++ body ++ rest) =
      ⟨(F.decode hd, body) :: (parse F rest).frames, (parse F rest).rest, (parse F rest).bad⟩ := by
  have htake : (hd ++ body ++ rest).take F.headLen = hd := by
    rw [List.append_assoc, ← hlen]
    exact List.take_left
  have hdrop : (hd ++ body ++ rest).drop F.headLen = body ++ rest := by
    rw [List.append_assoc, ← hlen]
    exact List.drop_left
  have hall : (hd ++ body ++ rest).drop (F.headLen + body.length) = rest := by
    rw [← hlen, ← List.length_append]
    exact List.drop_left
  have hle : (hd ++ body ++ rest).length = F.headLen + body.length + rest.length := by
    rw [List.length_append, List.length_append, hlen]
  rw [parse, if_neg (by omega), htake, if_neg (by simp [hb]), if_neg (by omega), hs, hdrop, hall]
  simp only [List.take_left]

/-- The four ways a string can start. -/
theorem parse_cases (F : Format β η) (bs : List β) :
    (bs.length < F.headLen) ∨
    (F.headLen ≤ bs.length ∧ F.bad (F.decode (bs.take F.headLen)) = true) ∨
    (F.headLen ≤ bs.length ∧ F.bad (F.decode (bs.take F.headLen)) = false ∧
      bs.length < F.headLen + F.size (F.decode (bs.take F.headLen))) ∨
    ∃ hd body rest, bs = hd ++ body ++ rest ∧ hd.length = F.headLen ∧
      F.bad (F.decode hd) = false ∧ F.size (F.decode hd) = body.length := by
  rcases Nat.lt_or_ge bs.length F.headLen with h | h
  · exact Or.inl h
  rcases hb : F.bad (F.decode (bs.take F.headLen)) with _ | _
  · rcases Nat.lt_or_ge bs.length (F.headLen + F.size (F.decode (bs.take F.headLen))) with hs | hs
    · exact Or.inr (Or.inr (Or.inl ⟨h, rfl, hs⟩))
    · refine Or.inr (Or.inr (Or.inr ⟨bs.take F.headLen,
        (bs.drop F.headLen).take (F.size (F.decode (bs.take F.headLen))),
        (bs.drop F.headLen).drop (F.size (F.decode (bs.take F.headLen))), ?_, ?_, hb, ?_⟩))
      · rw [List.append_assoc, List.take_append_drop, List.take_append_drop]
      · rw [List.length_take]; omega
      · rw [List.length_take, List.length_drop]; omega
  · exact Or.inr (Or.inl ⟨h, rfl⟩)

/-- Induction along the frames of a string. -/
@[elab_as_elim] theorem parse_induction {P : List β → Prop} (bs : List β)
    (short : ∀ bs, bs.length < F.headLen → P bs)
    (bad : ∀ bs, F.headLen ≤ bs.length → F.bad (F.decode (bs.take F.headLen)) = true → P bs)
    (part : ∀ bs, F.headLen ≤ bs.length → F.bad (F.decode (bs.take F.headLen)) = false →
      bs.length < F.headLen + F.size (F.decode (bs.take F.headLen)) → P bs)
    (frame : ∀ hd body rest, hd.length = F.headLen → F.bad (F.decode hd) = false →
      F.size (F.decode hd) = body.length → P rest → P (hd ++ body ++ rest)) : P bs := by
  induction hn : bs.length using Nat.strongRecOn generalizing bs with
  | ind n ih =>
    rcases parse_cases F bs with h | ⟨h, hb⟩ | ⟨h, hb, hs⟩ | ⟨hd, body, rest, rfl, hlen, hb, hs⟩
    · exact short bs h
    · exact bad bs h hb
    · exact part bs h hb hs
    · refine frame hd body rest hlen hb hs (ih rest.length ?_ rest rfl)
      have := F.headLen_pos
      rw [← hn, List.length_append, List.length_append]
      omega

/-- After a bad head more bytes change nothing. -/
theorem parse_append_bad (bs cs : List β) : (parse F bs).bad = true →
    parse F (bs ++ cs) = parse F bs := by
  refine parse_induction (F := F) bs ?_ ?_ ?_ ?_
  · intro bs hs h
    rw [parse_short hs] at h; cases h
  · intro bs hs hb _
    rw [parse_bad hs hb]
    refine parse_bad (by rw [List.length_append]; omega) ?_
    rw [List.take_append_of_le_length hs]; exact hb
  · intro bs hs hb ht h
    rw [parse_waiting hs hb ht] at h; cases h
  · intro hd body rest hlen hb hs ih h
    rw [parse_frame hd body rest hlen hb hs] at h
    rw [List.append_assoc (hd ++ body), parse_frame hd body _ hlen hb hs, ih h,
      parse_frame hd body rest hlen hb hs]

theorem bad_of_append {bs cs : List β} (h : (parse F (bs ++ cs)).bad = false) :
    (parse F bs).bad = false := by
  by_contra hbad
  rw [parse_append_bad bs cs (by simpa using hbad)] at h
  exact hbad h

/-- **Parsing goes on where it stopped**: with what was left, then the next bytes. -/
theorem parse_append (bs cs : List β) : (parse F bs).bad = false →
    parse F (bs ++ cs) =
      { frames := (parse F bs).frames ++ (parse F ((parse F bs).rest ++ cs)).frames
        rest := (parse F ((parse F bs).rest ++ cs)).rest
        bad := (parse F ((parse F bs).rest ++ cs)).bad } := by
  refine parse_induction (F := F) bs ?_ ?_ ?_ ?_
  · intro bs hs _
    rw [parse_short hs]; rfl
  · intro bs hs hb h
    rw [parse_bad hs hb] at h; cases h
  · intro bs hs hb ht _
    rw [parse_waiting hs hb ht]; rfl
  · intro hd body rest hlen hb hs ih h
    rw [parse_frame hd body rest hlen hb hs] at h
    rw [List.append_assoc (hd ++ body), parse_frame hd body _ hlen hb hs, ih h,
      parse_frame hd body rest hlen hb hs]
    rfl

/-! ## Streams of frames -/

/-- What was taken of a stream, and the next `n` elements on their way, start it. -/
theorem prefix_of_wire {taken wire rest stream : List β} (h : stream = taken ++ wire ++ rest) (n : ℕ) :
    taken ++ wire.take n <+: stream := by
  have htake : taken ++ wire.take n <+: taken ++ wire :=
    (List.prefix_append_right_inj taken).2 (List.take_prefix n wire)
  rw [h]
  exact htake.trans (List.prefix_append _ rest)

/-- How messages are written in a format. -/
structure Coding (F : Format β η) (μ : Type*) where
  head : μ → List β
  body : μ → List β
  length_head : ∀ m, (head m).length = F.headLen

variable (C : Coding F μ)

/-- The bytes of a message. -/
def Coding.frame (m : μ) : List β := C.head m ++ C.body m

/-- The bytes of some messages in order. -/
def Coding.stream (ms : List μ) : List β := ms.flatMap C.frame

/-- The head of a message announces its body. -/
def Coding.Fits (m : μ) : Prop :=
  F.bad (F.decode (C.head m)) = false ∧ F.size (F.decode (C.head m)) = (C.body m).length

/-- The messages whose last byte is among the first `n`. -/
def Coding.arrived : ℕ → List μ → List μ
  | _, [] => []
  | n, m :: ms =>
    if (C.frame m).length ≤ n then m :: Coding.arrived (n - (C.frame m).length) ms else []

/-- The messages whose head is among the first `n` in full. -/
def Coding.begun : ℕ → List μ → List μ
  | _, [] => []
  | n, m :: ms => if F.headLen ≤ n then m :: Coding.begun (n - (C.frame m).length) ms else []

variable {C}

@[simp] theorem Coding.stream_nil : C.stream [] = [] := rfl

@[simp] theorem Coding.stream_cons (m : μ) (ms : List μ) :
    C.stream (m :: ms) = C.frame m ++ C.stream ms := List.flatMap_cons

theorem Coding.stream_append (ms ns : List μ) : C.stream (ms ++ ns) = C.stream ms ++ C.stream ns :=
  List.flatMap_append

theorem Coding.stream_snoc (ms : List μ) (m : μ) : C.stream (ms ++ [m]) = C.stream ms ++ C.frame m := by
  rw [Coding.stream_append, Coding.stream_cons, Coding.stream_nil, List.append_nil]

theorem Coding.arrived_prefix : ∀ (n : ℕ) (ms : List μ), C.arrived n ms <+: ms := by
  intro n ms
  induction ms generalizing n with
  | nil => exact List.nil_prefix
  | cons m ms ih =>
    unfold Coding.arrived
    split
    · exact (List.prefix_cons_inj m).2 (ih _)
    · exact List.nil_prefix

theorem Coding.length_frame (m : μ) : (C.frame m).length = F.headLen + (C.body m).length := by
  unfold Coding.frame
  rw [List.length_append, C.length_head]

theorem Coding.begun_prefix : ∀ (n : ℕ) (ms : List μ), C.begun n ms <+: ms := by
  intro n ms
  induction ms generalizing n with
  | nil => exact List.nil_prefix
  | cons m ms ih =>
    unfold Coding.begun
    split
    · exact (List.prefix_cons_inj m).2 (ih _)
    · exact List.nil_prefix

/-- Nothing has begun where less than a head is there. -/
theorem Coding.begun_short {n : ℕ} (h : n < F.headLen) (ms : List μ) : C.begun n ms = [] := by
  cases ms with
  | nil => rfl
  | cons m ms => exact if_neg (Nat.not_le_of_lt h)

/-- The head of a stream that starts with a message. -/
theorem take_head (m : μ) (rest : List β) {n : ℕ} (hn : F.headLen ≤ n) :
    ((C.frame m ++ rest).take n).take F.headLen = C.head m := by
  unfold Coding.frame
  rw [List.take_take, Nat.min_eq_left hn, List.append_assoc, ← C.length_head m]
  exact List.take_left

/-- A proper prefix of a well-formed frame is a string that waits for more. -/
theorem parse_prefix {m : μ} {n : ℕ} (hm : F.headLen ≤ n → C.Fits m) (hn : n < (C.frame m).length) :
    parse F ((C.frame m).take n) = ⟨[], (C.frame m).take n, false⟩ := by
  have hframe := C.length_frame m
  have htn : ((C.frame m).take n).length = n := by
    rw [List.length_take]; omega
  rcases Nat.lt_or_ge n F.headLen with h | h
  · exact parse_short (by omega)
  · have hhead := take_head (C := C) m [] h
    rw [List.append_nil] at hhead
    refine parse_waiting (by omega) ?_ ?_
    · rw [hhead]; exact (hm h).1
    · rw [hhead, (hm h).2]; omega

/-- **What has arrived of a stream of frames**, when the heads that are there announce their
bodies. -/
theorem parse_begun : ∀ (ms : List μ) (n : ℕ), (∀ m ∈ C.begun n ms, C.Fits m) →
    parse F ((C.stream ms).take n) =
      { frames := (C.arrived n ms).map fun m => (F.decode (C.head m), C.body m)
        rest := ((C.stream ms).take n).drop (C.stream (C.arrived n ms)).length
        bad := false } := by
  intro ms
  induction ms with
  | nil =>
    intro n _
    have hnil : parse F ([] : List β) = ⟨[], [], false⟩ := parse_short F.headLen_pos
    simpa [Coding.arrived] using hnil
  | cons m ms ih =>
    intro n hfit
    have hframe := C.length_frame m
    have hbegun : F.headLen ≤ n → C.begun n (m :: ms) = m :: C.begun (n - (C.frame m).length) ms :=
      fun h => if_pos h
    have hm : F.headLen ≤ n → C.Fits m := fun h => hfit m (by rw [hbegun h]; exact List.mem_cons_self)
    rw [Coding.stream_cons]
    unfold Coding.arrived
    by_cases hn : (C.frame m).length ≤ n
    · -- the frame is there in full; go on behind it
      obtain ⟨k, rfl⟩ := Nat.exists_eq_add_of_le hn
      have hhead : F.headLen ≤ (C.frame m).length + k := by omega
      have hrest := ih k fun m' hm' => hfit m' (by
        rw [hbegun hhead, Nat.add_sub_cancel_left]
        exact List.mem_cons_of_mem m hm')
      rw [if_pos hn, List.take_length_add_append, Nat.add_sub_cancel_left]
      have hf := parse_frame (C.head m) (C.body m) ((C.stream ms).take k) (C.length_head m)
        (hm hhead).1 (hm hhead).2
      rw [show C.frame m = C.head m ++ C.body m from rfl, hf, hrest]
      ext1
      · rfl
      · show _ = List.drop (C.stream (m :: C.arrived k ms)).length _
        rw [Coding.stream_cons, List.length_append]
        show _ = List.drop ((C.head m ++ C.body m).length + _) _
        rw [List.drop_length_add_append]
      · rfl
    · rw [if_neg hn, List.take_append_of_le_length (by omega)]
      simpa using parse_prefix hm (by omega : n < (C.frame m).length)

/-- **A bad head stops the parse** as soon as it is there. -/
theorem parse_begun_bad : ∀ (ms : List μ) (n : ℕ), n ≤ (C.stream ms).length →
    (∀ m ∈ C.begun n ms, C.Fits m ∨ F.bad (F.decode (C.head m)) = true) →
    (∃ m ∈ C.begun n ms, ¬ C.Fits m) → (parse F ((C.stream ms).take n)).bad = true := by
  intro ms
  induction ms with
  | nil =>
    rintro n - - ⟨m, hm, -⟩
    cases hm
  | cons m ms ih =>
    rintro n hle hall ⟨b, hb, hbad⟩
    have hframe := C.length_frame m
    have hhead : F.headLen ≤ n := by
      by_contra h
      rw [Coding.begun_short (Nat.lt_of_not_le h)] at hb
      cases hb
    have hbegun : C.begun n (m :: ms) = m :: C.begun (n - (C.frame m).length) ms := if_pos hhead
    rw [hbegun] at hall hb
    rw [Coding.stream_cons]
    rcases hall m List.mem_cons_self with hm | hm
    · -- the first frame is good, so the bad head lies behind it
      have hb' : b ∈ C.begun (n - (C.frame m).length) ms :=
        (List.mem_cons.1 hb).resolve_left fun h => hbad (h ▸ hm)
      have hn : (C.frame m).length ≤ n := by
        by_contra h
        rw [Coding.begun_short (by have := F.headLen_pos; omega)] at hb'
        cases hb'
      obtain ⟨k, rfl⟩ := Nat.exists_eq_add_of_le hn
      rw [Nat.add_sub_cancel_left] at hall hb'
      rw [Coding.stream_cons, List.length_append] at hle
      have hrest := ih k (by omega) (fun m' hm' => hall m' (List.mem_cons_of_mem m hm')) ⟨b, hb', hbad⟩
      have hf := parse_frame (C.head m) (C.body m) ((C.stream ms).take k) (C.length_head m) hm.1 hm.2
      rw [List.take_length_add_append, show C.frame m = C.head m ++ C.body m from rfl, hf]
      exact hrest
    · rw [Coding.stream_cons] at hle
      rw [parse_bad (by rw [List.length_take]; omega) (by rw [take_head m _ hhead]; exact hm)]

end Framing
