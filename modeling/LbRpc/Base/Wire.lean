import Mathlib.Algebra.GroupWithZero.Nat
import Mathlib.Data.List.TakeDrop
import Mathlib.Data.Nat.Notation
import Mathlib.Logic.Function.Basic
import Mathlib.Tactic.SplitIfs

/-!
# Messages of tagged fields

The shape of generated parsers and serialisers: a message is a sequence of fields, each
behind its tag. How numbers are written is a `Runtime`, which generated code does not see
into; `Runtime.Lawful` is what it relies on.

* `parse`: the loop of a generated parser.
* `parse_field`, `parse_scalar`, `parse_elements`: what the loop makes of fields as they are
  written.
* `Codec.Sound`: what makes parser and serialiser of a message fit together; messages one
  behind the other are merged.
* `parse_repeated`: the loop that reads the elements of a repeated field in one go does not
  change what is parsed.
-/

namespace Wire

/-- What the runtime of the format offers to generated code. A reader gives back the bytes
behind what it reads. -/
structure Runtime where
  writeVarint : UInt64 → List UInt8
  varintSize : UInt64 → ℕ
  readVarint64 : List UInt8 → Option (UInt64 × List UInt8)
  readVarint32 : List UInt8 → Option (UInt32 × List UInt8)
  readTag : List UInt8 → Option (UInt32 × List UInt8)
  readSize : List UInt8 → Option (ℕ × List UInt8)
  /-- goes past the value behind a tag that no field has -/
  unknownFieldParse : UInt32 → List UInt8 → Option (List UInt8)

/-- **What is known of the runtime**: what was written is read, a reader takes bytes off the
front, and small numbers are one byte. -/
structure Runtime.Lawful (R : Runtime) : Prop where
  varintSize : ∀ v, R.varintSize v = (R.writeVarint v).length
  length_le : ∀ v, (R.writeVarint v).length ≤ 10
  length_small : ∀ v, v.toNat < 128 → (R.writeVarint v).length = 1
  readVarint64_write : ∀ v rest, R.readVarint64 (R.writeVarint v ++ rest) = some (v, rest)
  readVarint32_write : ∀ v rest, R.readVarint32 (R.writeVarint v ++ rest) = some (v.toUInt32, rest)
  readSize_write : ∀ n rest, n < 2 ^ 31 - 16 → R.readSize (R.writeVarint (UInt64.ofNat n) ++ rest) = some (n, rest)
  readTag_byte : ∀ (t : UInt8) rest, t ≠ 0 → t.toNat < 128 → R.readTag (t :: rest) = some (t.toUInt32, rest)
  readVarint64_lt : ∀ bs v rest, R.readVarint64 bs = some (v, rest) → rest.length < bs.length
  readVarint32_lt : ∀ bs v rest, R.readVarint32 bs = some (v, rest) → rest.length < bs.length
  readTag_lt : ∀ bs t rest, R.readTag bs = some (t, rest) → rest.length < bs.length
  readSize_lt : ∀ bs n rest, R.readSize bs = some (n, rest) → rest.length < bs.length
  unknownFieldParse_le : ∀ t bs rest, R.unknownFieldParse t bs = some rest → rest.length ≤ bs.length

/-- What a parser does behind the tag of a field: the message with the field, and what is
left. -/
abbrev Reader (μ : Type*) := μ → List UInt8 → Option (μ × List UInt8)

variable (R : Runtime) {μ ν : Type*}

/-- A varint of 64 bits. -/
def varint64 (set : UInt64 → μ → μ) : Reader μ := fun m bs =>
  match R.readVarint64 bs with
  | none => none
  | some (v, rest) => some (set v m, rest)

/-- A varint of 32 bits. -/
def varint32 (set : UInt32 → μ → μ) : Reader μ := fun m bs =>
  match R.readVarint32 bs with
  | none => none
  | some (v, rest) => some (set v m, rest)

/-- A message inside the message: its size, then as many bytes, which `parse` reads. -/
def nested (get : μ → ν) (set : ν → μ → μ) (parse : ν → List UInt8 → Option ν) : Reader μ := fun m bs =>
  match R.readSize bs with
  | none => none
  | some (n, rest) =>
    if rest.length < n then none
    else
      match parse (get m) (rest.take n) with
      | none => none
      | some v => some (set v m, rest.drop n)

/-- The loop inside the case of a repeated field: while the next byte is its tag, the next
element is read. -/
def repeatedFrom (tag : UInt8) (read : Reader μ) : ℕ → Reader μ
  | 0, m, bs => read m bs
  | n + 1, m, bs =>
    match read m bs with
    | none => none
    | some (m, []) => some (m, [])
    | some (m, t :: rest) => if t = tag then repeatedFrom tag read n m rest else some (m, t :: rest)

/-- A repeated field. -/
def repeated (tag : UInt8) (read : Reader μ) : Reader μ := fun m bs => repeatedFrom tag read bs.length m bs

/-- A case in the switch of a parser: the number of its field, the low byte of its tag, and what it
does. -/
structure Case (μ : Type*) where
  number : UInt32
  tag : UInt8
  read : Reader μ

/-- The switch over the number in a tag; a case of another kind of value is not taken. -/
def switch : List (Case μ) → UInt32 → Option (Reader μ)
  | [], _ => none
  | c :: cases, tag =>
    if tag >>> 3 = c.number then if tag.toUInt8 = c.tag then some c.read else none else switch cases tag

variable (fields : UInt32 → Option (Reader μ))

/-- What a parser does behind a tag. A zero tag and the end of a group end the message before
its bytes do, which is an error. -/
def behindTag (m : μ) (tag : UInt32) (rest : List UInt8) : Option (μ × List UInt8) :=
  match fields tag with
  | some read => read m rest
  | none =>
    if tag % 8 = 4 ∨ tag = 0 then none
    else
      match R.unknownFieldParse tag rest with
      | none => none
      | some rest => some (m, rest)

/-- One turn of the loop of a parser. -/
def turn (m : μ) (bs : List UInt8) : Option (μ × List UInt8) :=
  match R.readTag bs with
  | none => none
  | some (tag, rest) => behindTag R fields m tag rest

/-- At most `n` turns of the loop. -/
def parseFrom : ℕ → μ → List UInt8 → Option μ
  | _, m, [] => some m
  | 0, _, _ :: _ => none
  | n + 1, m, b :: bs =>
    match turn R fields m (b :: bs) with
    | none => none
    | some (m, rest) => parseFrom n m rest

/-- **The loop of a parser**: fields are read into `m` until the bytes end. Each turn takes a
byte. -/
def parse (m : μ) (bs : List UInt8) : Option μ := parseFrom R fields bs.length m bs

/-- What is read is taken off the front. -/
def Shrinks (read : Reader μ) : Prop := ∀ m bs m' rest, read m bs = some (m', rest) → rest.length ≤ bs.length

variable {R fields} {m m' : μ} {bs rest : List UInt8}

theorem shrinks_varint64 (h : R.Lawful) (set : UInt64 → μ → μ) : Shrinks (varint64 R set) := by
  intro m bs m' rest hread
  unfold varint64 at hread
  rcases hv : R.readVarint64 bs with _ | ⟨v, r⟩
  · rw [hv] at hread
    cases hread
  · rw [hv] at hread
    cases hread
    exact Nat.le_of_lt (h.readVarint64_lt _ _ _ hv)

theorem shrinks_varint32 (h : R.Lawful) (set : UInt32 → μ → μ) : Shrinks (varint32 R set) := by
  intro m bs m' rest hread
  unfold varint32 at hread
  rcases hv : R.readVarint32 bs with _ | ⟨v, r⟩
  · rw [hv] at hread
    cases hread
  · rw [hv] at hread
    cases hread
    exact Nat.le_of_lt (h.readVarint32_lt _ _ _ hv)

theorem shrinks_nested (h : R.Lawful) (get : μ → ν) (set : ν → μ → μ) (p : ν → List UInt8 → Option ν) :
    Shrinks (nested R get set p) := by
  intro m bs m' rest hread
  unfold nested at hread
  rcases hn : R.readSize bs with _ | ⟨n, r⟩
  · rw [hn] at hread
    cases hread
  · have hlt := h.readSize_lt _ _ _ hn
    rw [hn] at hread
    dsimp only at hread
    by_cases hshort : r.length < n
    · rw [if_pos hshort] at hread
      cases hread
    · rw [if_neg hshort] at hread
      rcases hp : p (get m) (r.take n) with _ | v
      · rw [hp] at hread
        cases hread
      · rw [hp] at hread
        cases hread
        rw [List.length_drop]
        omega

theorem shrinks_repeatedFrom {tag : UInt8} {read : Reader μ} (hread : Shrinks read) (n : ℕ) :
    Shrinks (repeatedFrom tag read n) := by
  induction n with
  | zero => exact hread
  | succ n ih =>
    intro m bs m' rest h
    unfold repeatedFrom at h
    rcases hr : read m bs with _ | ⟨u, _ | ⟨t, r⟩⟩
    · rw [hr] at h
      cases h
    · rw [hr] at h
      cases h
      exact Nat.zero_le _
    · have hle := hread _ _ _ _ hr
      rw [hr] at h
      dsimp only at h
      by_cases ht : t = tag
      · rw [if_pos ht] at h
        have hrest := ih _ _ _ _ h
        rw [List.length_cons] at hle
        omega
      · rw [if_neg ht] at h
        cases h
        exact hle

theorem shrinks_repeated {tag : UInt8} {read : Reader μ} (hread : Shrinks read) : Shrinks (repeated tag read) :=
  fun m bs => shrinks_repeatedFrom hread bs.length m bs

/-- Every field of a parser takes bytes off the front. -/
def AllShrink (fields : UInt32 → Option (Reader μ)) : Prop := ∀ tag read, fields tag = some read → Shrinks read

theorem allShrink_switch {cases : List (Case μ)} (h : ∀ c ∈ cases, Shrinks c.read) : AllShrink (switch cases) := by
  intro tag read hr
  induction cases with
  | nil => cases hr
  | cons c cs ih =>
    unfold switch at hr
    split_ifs at hr
    · cases hr
      exact h c List.mem_cons_self
    · exact ih (fun d hd => h d (List.mem_cons_of_mem c hd)) hr

theorem behindTag_le (h : R.Lawful) (hf : AllShrink fields) {tag : UInt32}
    (ht : behindTag R fields m tag bs = some (m', rest)) : rest.length ≤ bs.length := by
  unfold behindTag at ht
  rcases hread : fields tag with _ | read
  · rw [hread] at ht
    dsimp only at ht
    by_cases hend : tag % 8 = 4 ∨ tag = 0
    · rw [if_pos hend] at ht
      cases ht
    · rw [if_neg hend] at ht
      rcases hu : R.unknownFieldParse tag bs with _ | r
      · rw [hu] at ht
        cases ht
      · have hle := h.unknownFieldParse_le _ _ _ hu
        rw [hu] at ht
        cases ht
        exact hle
  · rw [hread] at ht
    exact hf tag read hread _ _ _ _ ht

/-- A turn takes a byte. -/
theorem turn_lt (h : R.Lawful) (hf : AllShrink fields) (ht : turn R fields m bs = some (m', rest)) :
    rest.length < bs.length := by
  unfold turn at ht
  rcases htag : R.readTag bs with _ | ⟨tag, r⟩
  · rw [htag] at ht
    cases ht
  · have hlt := h.readTag_lt _ _ _ htag
    rw [htag] at ht
    exact Nat.lt_of_le_of_lt (behindTag_le h hf ht) hlt

/-- The number of turns does not matter once it is as large as the bytes are many. -/
theorem parseFrom_eq (h : R.Lawful) (hf : AllShrink fields) {n : ℕ} (hn : bs.length ≤ n) :
    parseFrom R fields n m bs = parse R fields m bs := by
  unfold parse
  induction n using Nat.strongRecOn generalizing m bs with
  | ind n ih =>
    cases bs with
    | nil => cases n <;> rfl
    | cons b bs =>
      rw [List.length_cons] at hn
      obtain ⟨k, rfl⟩ : ∃ k, n = k + 1 := ⟨n - 1, by omega⟩
      rw [List.length_cons]
      unfold parseFrom
      rcases ht : turn R fields m (b :: bs) with _ | ⟨m', rest⟩
      · rfl
      · have hlt := turn_lt h hf ht
        rw [List.length_cons] at hlt
        dsimp only
        rw [ih k (by omega) (by omega)]
        rcases Nat.lt_or_ge bs.length (k + 1) with hk | hk
        · exact (ih bs.length hk (by omega)).symm
        · omega

theorem parse_nil : parse R fields m [] = some m := rfl

/-- **The loop goes on behind a turn.** -/
theorem parse_turn (h : R.Lawful) (hf : AllShrink fields) (hne : bs ≠ []) :
    parse R fields m bs =
      match turn R fields m bs with
      | none => none
      | some (m, rest) => parse R fields m rest := by
  obtain ⟨b, l, rfl⟩ := List.exists_cons_of_ne_nil hne
  have hstart : parse R fields m (b :: l) = parseFrom R fields (l.length + 1) m (b :: l) := rfl
  rw [hstart]
  unfold parseFrom
  rcases ht : turn R fields m (b :: l) with _ | ⟨m', rest⟩
  · rfl
  · have hlt := turn_lt h hf ht
    rw [List.length_cons] at hlt
    exact parseFrom_eq h hf (by omega)

/-- A tag that fits a byte leads to its field. -/
theorem turn_byte (h : R.Lawful) {t : UInt8} {read : Reader μ} (h0 : t ≠ 0) (hlt : t.toNat < 128)
    (hfield : fields t.toUInt32 = some read) : turn R fields m (t :: rest) = read m rest := by
  unfold turn behindTag
  rw [h.readTag_byte t rest h0 hlt]
  dsimp only
  rw [hfield]

/-- **A field as it is written**, behind a tag of one byte. -/
theorem parse_field (h : R.Lawful) (hf : AllShrink fields) {t : UInt8} {read : Reader μ} (h0 : t ≠ 0)
    (hlt : t.toNat < 128) (hfield : fields t.toUInt32 = some read) {body : List UInt8}
    (hread : read m (body ++ rest) = some (m', rest)) :
    parse R fields m (t :: body ++ rest) = parse R fields m' rest := by
  rw [List.cons_append, parse_turn h hf (List.cons_ne_nil _ _), turn_byte h h0 hlt hfield, hread]

/-! ## Fields as they are written -/

variable (R) in
/-- A scalar field, which is left out where it is zero. -/
def writeScalar (t : UInt8) (v : UInt64) : List UInt8 := if v ≠ 0 then t :: R.writeVarint v else []

variable (R) in
/-- A message inside the message: tag, size, bytes. -/
def writeNested (t : UInt8) (size : ℕ) (bytes : List UInt8) : List UInt8 :=
  t :: R.writeVarint (UInt64.ofNat size) ++ bytes

theorem varint64_write (h : R.Lawful) (set : UInt64 → μ → μ) (v : UInt64) (m : μ) (rest : List UInt8) :
    varint64 R set m (R.writeVarint v ++ rest) = some (set v m, rest) := by
  unfold varint64
  rw [h.readVarint64_write]

theorem varint32_write (h : R.Lawful) (set : UInt32 → μ → μ) (v : UInt64) (m : μ) (rest : List UInt8) :
    varint32 R set m (R.writeVarint v ++ rest) = some (set v.toUInt32 m, rest) := by
  unfold varint32
  rw [h.readVarint32_write]

theorem nested_write (h : R.Lawful) {get : μ → ν} {set : ν → μ → μ} {p : ν → List UInt8 → Option ν}
    {bytes : List UInt8} {v : ν} (hsize : bytes.length < 2 ^ 31 - 16) (hp : p (get m) bytes = some v)
    (rest : List UInt8) :
    nested R get set p m (R.writeVarint (UInt64.ofNat bytes.length) ++ bytes ++ rest) =
      some (set v m, rest) := by
  have hlen : ¬ (bytes ++ rest).length < bytes.length := by
    rw [List.length_append]
    omega
  unfold nested
  rw [List.append_assoc, h.readSize_write _ _ hsize]
  dsimp only
  rw [if_neg hlen, List.take_left, List.drop_left, hp]

/-- **A scalar field**, written or left out. -/
theorem parse_scalar (h : R.Lawful) (hf : AllShrink fields) {t : UInt8} {read : Reader μ} (h0 : t ≠ 0)
    (hlt : t.toNat < 128) (hfield : fields t.toUInt32 = some read) {v : UInt64}
    (hread : v ≠ 0 → ∀ rest, read m (R.writeVarint v ++ rest) = some (m', rest)) (hzero : v = 0 → m' = m) :
    parse R fields m (writeScalar R t v ++ rest) = parse R fields m' rest := by
  unfold writeScalar
  by_cases hv : v = 0
  · rw [if_neg (not_not_intro hv), List.nil_append, hzero hv]
  · rw [if_pos hv]
    exact parse_field h hf h0 hlt hfield (hread hv rest)

/-- **A message inside the message.** -/
theorem parse_nested (h : R.Lawful) (hf : AllShrink fields) {t : UInt8} {get : μ → ν} {set : ν → μ → μ}
    {p : ν → List UInt8 → Option ν} (h0 : t ≠ 0) (hlt : t.toNat < 128)
    (hfield : fields t.toUInt32 = some (nested R get set p)) {bytes : List UInt8} {v : ν} {size : ℕ}
    (hlen : size = bytes.length) (hsize : size < 2 ^ 31 - 16) (hp : p (get m) bytes = some v) :
    parse R fields m (writeNested R t size bytes ++ rest) = parse R fields (set v m) rest := by
  subst hlen
  have hread : nested R get set p m (R.writeVarint (UInt64.ofNat bytes.length) ++ bytes ++ rest) =
      some (set v m, rest) := nested_write h hsize hp rest
  have hbytes : writeNested R t bytes.length bytes ++ rest =
      t :: (R.writeVarint (UInt64.ofNat bytes.length) ++ bytes) ++ rest := by
    unfold writeNested
    rw [List.cons_append]
  rw [hbytes]
  exact parse_field h hf h0 hlt hfield hread

/-- **The elements of a repeated field**, one behind the other. -/
theorem parse_elements (h : R.Lawful) (hf : AllShrink fields) {t : UInt8} {get : μ → ν} {set : ν → μ → μ}
    {p : ν → List UInt8 → Option ν} (h0 : t ≠ 0) (hlt : t.toNat < 128)
    (hfield : fields t.toUInt32 = some (nested R get set p)) {size : ν → ℕ} {bytes : ν → List UInt8} {vs : List ν}
    (hlen : ∀ v ∈ vs, size v = (bytes v).length) (hsize : ∀ v ∈ vs, size v < 2 ^ 31 - 16)
    (hp : ∀ v ∈ vs, ∀ m, p (get m) (bytes v) = some v) (m : μ) (rest : List UInt8) :
    parse R fields m (vs.flatMap (fun v => writeNested R t (size v) (bytes v)) ++ rest) =
      parse R fields (vs.foldl (fun m v => set v m) m) rest := by
  induction vs generalizing m with
  | nil => rfl
  | cons v vs ih =>
    have hv := List.mem_cons_self (a := v) (l := vs)
    rw [List.flatMap_cons, List.append_assoc,
      parse_nested h hf h0 hlt hfield (hlen v hv) (hsize v hv) (hp v hv m), List.foldl_cons]
    exact ih (fun w hw => hlen w (List.mem_cons_of_mem v hw)) (fun w hw => hsize w (List.mem_cons_of_mem v hw))
      (fun w hw => hp w (List.mem_cons_of_mem v hw)) (set v m)

/-! ## Messages -/

/-- What is generated for one type of message. -/
structure Codec (μ : Type*) where
  /-- the message without fields -/
  empty : μ
  parse : μ → List UInt8 → Option μ
  serialize : μ → List UInt8
  byteSize : μ → ℕ
  mergeFrom : μ → μ → μ

/-- **Parser, serialiser, size and merge of a type of message fit together.** -/
structure Codec.Sound (C : Codec μ) : Prop where
  parse_nil : ∀ m, C.parse m [] = some m
  parse_serialize : ∀ m v rest, C.parse m (C.serialize v ++ rest) = C.parse (C.mergeFrom m v) rest
  merge_empty : ∀ v, C.mergeFrom C.empty v = v
  length_serialize : ∀ v, (C.serialize v).length = C.byteSize v

variable {C : Codec μ}

/-- Messages one behind the other are merged in their order. -/
theorem Codec.Sound.parse_flatMap (h : C.Sound) (m : μ) (vs : List μ) :
    C.parse m (vs.flatMap C.serialize) = some (vs.foldl C.mergeFrom m) := by
  induction vs generalizing m with
  | nil => exact h.parse_nil m
  | cons v vs ih =>
    rw [List.flatMap_cons, h.parse_serialize]
    exact ih (C.mergeFrom m v)

theorem Codec.Sound.parse_into (h : C.Sound) (m v : μ) : C.parse m (C.serialize v) = some (C.mergeFrom m v) := by
  have hp := h.parse_serialize m v []
  rw [List.append_nil, h.parse_nil] at hp
  exact hp

/-- **A message is parsed as it was serialised.** -/
theorem Codec.Sound.round_trip (h : C.Sound) (v : μ) : C.parse C.empty (C.serialize v) = some v := by
  rw [h.parse_into, h.merge_empty]

/-- **What a sender and a receiver rely on**: a message is parsed as it was serialised, in as many
bytes as were computed, no other message has these bytes, and messages one behind the other are
merged in their order. -/
structure Codec.RoundTrips (C : Codec μ) : Prop where
  parse_serialize : ∀ v, C.parse C.empty (C.serialize v) = some v
  length_serialize : ∀ v, (C.serialize v).length = C.byteSize v
  injective : Function.Injective C.serialize
  merged : ∀ m (vs : List μ), C.parse m (vs.flatMap C.serialize) = some (vs.foldl C.mergeFrom m)

/-- No two messages have the same bytes. -/
theorem Codec.Sound.serialize_injective (h : C.Sound) : Function.Injective C.serialize := by
  intro v w hvw
  have hv := h.round_trip v
  rw [hvw, h.round_trip w] at hv
  exact (Option.some.inj hv).symm

theorem Codec.Sound.roundTrips (h : C.Sound) : C.RoundTrips where
  parse_serialize := h.round_trip
  length_serialize := h.length_serialize
  injective := h.serialize_injective
  merged := h.parse_flatMap

/-- Only the message without fields has no bytes. -/
theorem Codec.Sound.serialize_eq_nil (h : C.Sound) {v : μ} (hv : C.serialize v = []) : v = C.empty := by
  have hp := h.round_trip v
  rw [hv, h.parse_nil] at hp
  exact (Option.some.inj hp).symm

/-! ## Repeated fields in one go -/

/-- Behind the elements that are read in one go the loop is where it would be, had it read them
turn by turn. -/
theorem parse_repeatedFrom (h : R.Lawful) (hf : AllShrink fields) {t : UInt8} {read : Reader μ} (h0 : t ≠ 0)
    (hlt : t.toNat < 128) (hfield : fields t.toUInt32 = some read) (n : ℕ) (m : μ) (bs : List UInt8) :
    ((repeatedFrom t read n m bs).bind fun r => parse R fields r.1 r.2) =
      (read m bs).bind fun r => parse R fields r.1 r.2 := by
  induction n generalizing m bs with
  | zero => rfl
  | succ n ih =>
    unfold repeatedFrom
    rcases hr : read m bs with _ | ⟨u, _ | ⟨b, r⟩⟩
    · rfl
    · rfl
    · dsimp only
      by_cases hb : b = t
      · have hnext : parse R fields u (b :: r) = (read u r).bind fun r => parse R fields r.1 r.2 := by
          rw [parse_turn h hf (List.cons_ne_nil _ _), hb, turn_byte h h0 hlt hfield]
          cases read u r <;> rfl
        rw [if_pos hb, ih u r]
        exact hnext.symm
      · rw [if_neg hb]

/-- A case that does something else behind its tag. -/
theorem switch_of_ne (pre post : List (Case μ)) {number : UInt32} {t : UInt8} {read read' : Reader μ} {tag : UInt32}
    (hnumber : number.toNat < 32) (htag : tag ≠ t.toUInt32) :
    switch (pre ++ ⟨number, t, read'⟩ :: post) tag = switch (pre ++ ⟨number, t, read⟩ :: post) tag := by
  induction pre with
  | nil =>
    rw [List.nil_append, List.nil_append]
    unfold switch
    dsimp only
    by_cases hn : tag >>> 3 = number
    · -- a number below 32 leaves no room above the low byte
      have hlow : tag.toUInt8 ≠ t := by
        intro ht
        apply htag
        apply UInt32.toNat_inj.1
        have hdiv := congrArg UInt32.toNat hn
        have hmod := congrArg UInt8.toNat ht
        rw [UInt32.toNat_shiftRight] at hdiv
        rw [UInt32.toNat_toUInt8] at hmod
        have h3 : tag.toNat >>> (UInt32.toNat 3 % 32) = tag.toNat / 8 := Nat.shiftRight_eq_div_pow _ _
        rw [UInt8.toNat_toUInt32]
        omega
      rw [if_pos hn, if_pos hn, if_neg hlow, if_neg hlow]
    · rw [if_neg hn, if_neg hn]
  | cons c pre ih =>
    rw [List.cons_append, List.cons_append]
    unfold switch
    rw [ih]

/-- **Reading the elements of a repeated field in one go** does not change what is parsed. -/
theorem parse_repeated (h : R.Lawful) (hf : AllShrink fields) {t : UInt8} (read : Reader μ) (h0 : t ≠ 0)
    (hlt : t.toNat < 128) (hfield : fields t.toUInt32 = some read) {fields' : UInt32 → Option (Reader μ)}
    (hfield' : fields' t.toUInt32 = some (repeated t read))
    (hsame : ∀ tag, tag ≠ t.toUInt32 → fields' tag = fields tag) (m : μ) (bs : List UInt8) :
    parse R fields' m bs = parse R fields m bs := by
  have hf' : AllShrink fields' := by
    intro tag r hr
    by_cases htag : tag = t.toUInt32
    · rw [htag, hfield'] at hr
      cases hr
      exact shrinks_repeated (hf _ _ hfield)
    · rw [hsame tag htag] at hr
      exact hf tag r hr
  induction hn : bs.length using Nat.strongRecOn generalizing m bs with
  | ind n ih =>
    by_cases hne : bs = []
    · rw [hne]
      rfl
    · -- the two parsers read the same tag
      rw [parse_turn h hf' hne, parse_turn h hf hne]
      have hrest : ∀ r, turn R fields' m bs = some r → parse R fields' r.1 r.2 = parse R fields r.1 r.2 :=
        fun r hr => ih r.2.length (by rw [← hn]; exact turn_lt h hf' hr) r.1 r.2 rfl
      unfold turn at hrest ⊢
      rcases htag : R.readTag bs with _ | ⟨tag, r⟩
      · rfl
      · rw [htag] at hrest
        dsimp only at hrest ⊢
        by_cases ht : tag = t.toUInt32
        · have hgo := parse_repeatedFrom h hf h0 hlt hfield r.length m r
          unfold behindTag at hrest ⊢
          rw [ht, hfield'] at hrest
          rw [ht, hfield', hfield]
          dsimp only at hrest ⊢
          unfold repeated at hrest ⊢
          rcases hrep : repeatedFrom t read r.length m r with _ | u
          · rw [hrep] at hgo
            cases hread : read m r with
            | none => rfl
            | some w => rw [hread] at hgo; exact hgo
          · rw [hrep] at hgo
            dsimp only
            rw [hrest u hrep]
            cases hread : read m r with
            | none => rw [hread] at hgo; exact hgo
            | some w => rw [hread] at hgo; exact hgo
        · have hbehind : behindTag R fields' m tag r = behindTag R fields m tag r := by
            unfold behindTag
            rw [hsame tag ht]
          rw [hbehind] at hrest ⊢
          rcases hnext : behindTag R fields m tag r with _ | u
          · rfl
          · exact hrest u hnext

end Wire
