import LbRpc.Base.Varint
import LbRpc.Proof.Packing
import LbRpc.Wire.Messages

/-!
# What is serialised is parsed

* `parse_int32`, `parse_uint32`, `parse_bool`: the loop of a parser over a field as the
  serialisers write it.
* `HostInfo.sound` and its seven fellows: the generated code of each message fits together.
* `lbrss_messages`: messages one behind the other are parsed to their merge, and no two
  messages have the same bytes.
-/

namespace LbRpc

namespace Lbrss

open Wire

variable {R : Runtime} {μ : Type} {fs : UInt32 → Option (Reader μ)}

/-! ## Values -/

/-- An `int32` survives its sign extension. -/
theorem wordInt32_int32Word (v : Int32) : wordInt32 (int32Word v) = v := by
  have hcut := keyLo_toInt (int32Word v)
  have hword := toUInt64_toNat v.toInt64
  have hv := int32_bounds v
  rw [Int32.toInt_toInt64] at hword
  apply Int32.toInt_inj.1
  show (keyLo (int32Word v)).toInt = v.toInt
  rw [hcut]
  unfold int32Word
  split <;> omega

/-- Only zero is extended to zero. -/
theorem int32Word_ne_zero {v : Int32} (hv : v ≠ 0) : int32Word v ≠ 0 := by
  intro h
  have hback := wordInt32_int32Word v
  rw [h] at hback
  exact hv hback.symm

theorem toUInt64_ne_zero {v : UInt32} (hv : v ≠ 0) : v.toUInt64 ≠ 0 := by
  intro h
  have hback : v.toUInt64.toUInt32 = v := UInt32.toUInt32_toUInt64 v
  rw [h] at hback
  exact hv hback.symm

theorem writeInt32_eq (t : UInt8) (v : Int32) : writeInt32 R t v = writeScalar R t (int32Word v) := by
  unfold writeInt32 writeScalar
  by_cases hv : v = 0
  · subst hv
    rfl
  · rw [if_pos hv, if_pos (int32Word_ne_zero hv)]

theorem writeUInt32_eq (t : UInt8) (v : UInt32) : writeUInt32 R t v = writeScalar R t v.toUInt64 := by
  unfold writeUInt32 writeScalar
  by_cases hv : v = 0
  · subst hv
    rfl
  · rw [if_pos hv, if_pos (toUInt64_ne_zero hv)]

theorem writeBool_eq (t : UInt8) (v : Bool) : writeBool R t v = writeScalar R t (if v then 1 else 0) := by
  cases v <;> rfl

/-! ## Fields -/

/-- **An `int32` field**, where the parser puts it with `put`. -/
theorem parse_int32 (h : R.Lawful) (hf : AllShrink fs) (t : UInt8) (get : μ → Int32) (put : Int32 → μ → μ)
    (h0 : t ≠ 0) (hlt : t.toNat < 128)
    (hfield : fs t.toUInt32 = some (varint64 R fun w m => put (wordInt32 w) m)) (m : μ)
    (hput : put (get m) m = m) (v : Int32) (rest : List UInt8) :
    parse R fs m (writeInt32 R t v ++ rest) = parse R fs (put (mergeScalar (get m) v) m) rest := by
  rw [writeInt32_eq]
  refine parse_scalar h hf h0 hlt hfield (fun hne rest => ?_) fun hzero => ?_
  · have hv : v ≠ 0 := by
      rintro rfl
      exact hne rfl
    rw [varint64_write h, wordInt32_int32Word]
    unfold mergeScalar
    rw [if_pos hv]
  · have hv : v = 0 := by
      by_contra hv
      exact int32Word_ne_zero hv hzero
    unfold mergeScalar
    rw [if_neg (not_not_intro hv), hput]

/-- **A `uint32` field.** -/
theorem parse_uint32 (h : R.Lawful) (hf : AllShrink fs) (t : UInt8) (get : μ → UInt32) (put : UInt32 → μ → μ)
    (h0 : t ≠ 0) (hlt : t.toNat < 128) (hfield : fs t.toUInt32 = some (varint32 R put)) (m : μ)
    (hput : put (get m) m = m) (v : UInt32) (rest : List UInt8) :
    parse R fs m (writeUInt32 R t v ++ rest) = parse R fs (put (mergeScalar (get m) v) m) rest := by
  rw [writeUInt32_eq]
  refine parse_scalar h hf h0 hlt hfield (fun hne rest => ?_) fun hzero => ?_
  · have hv : v ≠ 0 := by
      rintro rfl
      exact hne rfl
    rw [varint32_write h, UInt32.toUInt32_toUInt64]
    unfold mergeScalar
    rw [if_pos hv]
  · have hv : v = 0 := by
      by_contra hv
      exact toUInt64_ne_zero hv hzero
    unfold mergeScalar
    rw [if_neg (not_not_intro hv), hput]

/-- **A `bool` field.** -/
theorem parse_bool (h : R.Lawful) (hf : AllShrink fs) (t : UInt8) (get : μ → Bool) (put : Bool → μ → μ)
    (h0 : t ≠ 0) (hlt : t.toNat < 128) (hfield : fs t.toUInt32 = some (varint64 R fun w m => put (w != 0) m))
    (m : μ) (hput : put (get m) m = m) (v : Bool) (rest : List UInt8) :
    parse R fs m (writeBool R t v ++ rest) = parse R fs (put (get m || v) m) rest := by
  rw [writeBool_eq]
  refine parse_scalar h hf h0 hlt hfield (fun hne rest => ?_) fun hzero => ?_
  · have hv : v = true := by
      cases v with
      | false => exact absurd rfl hne
      | true => rfl
    rw [varint64_write h, hv, Bool.or_true]
    rfl
  · have hv : v = false := by
      cases v with
      | false => rfl
      | true => cases hzero
    rw [hv, Bool.or_false, hput]

/-! ## Sizes -/

theorem length_writeInt32 (h : R.Lawful) (t : UInt8) (v : Int32) : (writeInt32 R t v).length = int32Size R v := by
  unfold writeInt32 int32Size
  by_cases hv : v = 0
  · rw [if_neg (not_not_intro hv), if_neg (not_not_intro hv), List.length_nil]
  · rw [if_pos hv, if_pos hv, List.length_cons, h.varintSize]
    omega

theorem length_writeUInt32 (h : R.Lawful) (t : UInt8) (v : UInt32) :
    (writeUInt32 R t v).length = uint32Size R v := by
  unfold writeUInt32 uint32Size
  by_cases hv : v = 0
  · rw [if_neg (not_not_intro hv), if_neg (not_not_intro hv), List.length_nil]
  · rw [if_pos hv, if_pos hv, List.length_cons, h.varintSize]
    omega

theorem length_writeBool (h : R.Lawful) (t : UInt8) (v : Bool) :
    (writeBool R t v).length = if v then 1 + 1 else 0 := by
  cases v with
  | false => rfl
  | true =>
    show (R.writeVarint 1).length + 1 = 1 + 1
    rw [h.length_small 1 (by decide)]

theorem int32Size_le (h : R.Lawful) (v : Int32) : int32Size R v ≤ 11 := by
  have hle := h.length_le (int32Word v)
  unfold int32Size
  rw [h.varintSize]
  split <;> omega

theorem uint32Size_le (h : R.Lawful) (v : UInt32) : uint32Size R v ≤ 11 := by
  have hle := h.length_le v.toUInt64
  unfold uint32Size
  rw [h.varintSize]
  split <;> omega

theorem length_writeNested (h : R.Lawful) (t : UInt8) {size : ℕ} {bytes : List UInt8} (hlen : bytes.length = size) :
    (writeNested R t size bytes).length = messageSize R size := by
  unfold writeNested messageSize
  rw [List.length_append, List.length_cons, h.varintSize, hlen]
  omega

/-- The size of a repeated field is that of its elements. -/
theorem length_elements (h : R.Lawful) {ν : Type} (t : UInt8) {size : ν → ℕ} {bytes : ν → List UInt8}
    (hlen : ∀ v, (bytes v).length = size v) (vs : List ν) :
    (vs.flatMap fun v => writeNested R t (size v) (bytes v)).length =
      (vs.map fun v => messageSize R (size v)).sum := by
  induction vs with
  | nil => rfl
  | cons v vs ih =>
    rw [List.flatMap_cons, List.length_append, length_writeNested h t (hlen v), ih, List.map_cons, List.sum_cons]

/-! ## The messages -/

theorem mergeScalar_zero {α : Type} [DecidableEq α] [OfNat α 0] (w : α) : mergeScalar 0 w = w := by
  unfold mergeScalar
  by_cases hw : w = 0
  · rw [if_neg (not_not_intro hw), hw]
  · rw [if_pos hw]

namespace HostInfo

theorem allShrink (h : R.Lawful) : AllShrink (fields R) := by
  refine allShrink_switch fun c hc => ?_
  simp only [List.mem_cons, List.not_mem_nil, or_false] at hc
  rcases hc with rfl | rfl <;> exact shrinks_varint64 h _

theorem sound (h : R.Lawful) : (codec R).Sound where
  parse_nil := fun m => rfl
  parse_serialize := by
    intro m v rest
    have hf := allShrink h
    show parse R (fields R) m ((writeInt32 R 8 v.ip ++ writeInt32 R 16 v.port) ++ rest) = _
    rw [List.append_assoc,
      parse_int32 h hf 8 ip (fun v m => { m with ip := v }) (by decide) (by decide) rfl _ rfl,
      parse_int32 h hf 16 port (fun v m => { m with port := v }) (by decide) (by decide) rfl _ rfl]
    rfl
  merge_empty := by
    intro v
    show HostInfo.mk (mergeScalar 0 v.ip) (mergeScalar 0 v.port) = v
    rw [mergeScalar_zero, mergeScalar_zero]
  length_serialize := by
    intro v
    show (writeInt32 R 8 v.ip ++ writeInt32 R 16 v.port).length = int32Size R v.ip + int32Size R v.port
    rw [List.length_append, length_writeInt32 h, length_writeInt32 h]

/-- A host is small. -/
theorem byteSize_le (h : R.Lawful) (v : HostInfo) : (codec R).byteSize v ≤ 22 := by
  have hip := int32Size_le h v.ip
  have hport := int32Size_le h v.port
  show int32Size R v.ip + int32Size R v.port ≤ 22
  omega

theorem byteSize_lt (h : R.Lawful) (v : HostInfo) : (codec R).byteSize v < 2 ^ 31 - 16 := by
  have hle := byteSize_le h v
  omega

end HostInfo

namespace GetRouteRequest

theorem allShrink (h : R.Lawful) : AllShrink (fields R) := by
  refine allShrink_switch fun c hc => ?_
  simp only [List.mem_cons, List.not_mem_nil, or_false] at hc
  rcases hc with rfl | rfl <;> exact shrinks_varint64 h _

theorem sound (h : R.Lawful) : (codec R).Sound where
  parse_nil := fun m => rfl
  parse_serialize := by
    intro m v rest
    have hf := allShrink h
    show parse R (fields R) m ((writeInt32 R 8 v.modid ++ writeInt32 R 16 v.cmdid) ++ rest) = _
    rw [List.append_assoc,
      parse_int32 h hf 8 modid (fun v m => { m with modid := v }) (by decide) (by decide) rfl _ rfl,
      parse_int32 h hf 16 cmdid (fun v m => { m with cmdid := v }) (by decide) (by decide) rfl _ rfl]
    rfl
  merge_empty := by
    intro v
    show GetRouteRequest.mk (mergeScalar 0 v.modid) (mergeScalar 0 v.cmdid) = v
    rw [mergeScalar_zero, mergeScalar_zero]
  length_serialize := by
    intro v
    show (writeInt32 R 8 v.modid ++ writeInt32 R 16 v.cmdid).length = int32Size R v.modid + int32Size R v.cmdid
    rw [List.length_append, length_writeInt32 h, length_writeInt32 h]

theorem byteSize_le (h : R.Lawful) (v : GetRouteRequest) : (codec R).byteSize v ≤ 22 := by
  have hmodid := int32Size_le h v.modid
  have hcmdid := int32Size_le h v.cmdid
  show int32Size R v.modid + int32Size R v.cmdid ≤ 22
  omega

end GetRouteRequest

/-- Elements that are added one by one are appended. -/
theorem foldl_add {ν : Type} (add : ν → μ → μ) (hosts : List ν → μ) (hadd : ∀ l v, add v (hosts l) = hosts (l ++ [v]))
    (l vs : List ν) : vs.foldl (fun m v => add v m) (hosts l) = hosts (l ++ vs) := by
  induction vs generalizing l with
  | nil => rw [List.append_nil, List.foldl_nil]
  | cons v vs ih => rw [List.foldl_cons, hadd, ih, List.append_assoc, List.singleton_append]

namespace GetRouteResponse

/-- The switch with the hosts read turn by turn. -/
def plainFields (R : Runtime) : UInt32 → Option (Reader GetRouteResponse) := switch [
  ⟨1, 8, varint64 R fun v m => { m with modid := wordInt32 v }⟩,
  ⟨2, 16, varint64 R fun v m => { m with cmdid := wordInt32 v }⟩,
  ⟨3, 26, addHost R⟩]

theorem allShrink (h : R.Lawful) : AllShrink (plainFields R) := by
  refine allShrink_switch fun c hc => ?_
  simp only [List.mem_cons, List.not_mem_nil, or_false] at hc
  rcases hc with rfl | rfl | rfl
  · exact shrinks_varint64 h _
  · exact shrinks_varint64 h _
  · exact shrinks_nested h _ _ _

theorem parse_plain (h : R.Lawful) (m : GetRouteResponse) (bs : List UInt8) :
    (codec R).parse m bs = parse R (plainFields R) m bs :=
  parse_repeated h (allShrink h) (t := 26) (addHost R) (by decide) (by decide) rfl rfl
    (fun _ htag => switch_of_ne [_, _] [] (by decide) htag) m bs

theorem sound (h : R.Lawful) : (codec R).Sound where
  parse_nil := fun m => rfl
  parse_serialize := by
    intro m v rest
    have hf := allShrink h
    have hhost := HostInfo.sound h
    rw [parse_plain h, parse_plain h]
    show parse R (plainFields R) m ((writeInt32 R 8 v.modid ++ writeInt32 R 16 v.cmdid ++
      v.host.flatMap fun x => writeNested R 26 ((HostInfo.codec R).byteSize x) ((HostInfo.codec R).serialize x)) ++
        rest) = _
    rw [List.append_assoc, List.append_assoc,
      parse_int32 h hf 8 modid (fun v m => { m with modid := v }) (by decide) (by decide) rfl _ rfl,
      parse_int32 h hf 16 cmdid (fun v m => { m with cmdid := v }) (by decide) (by decide) rfl _ rfl,
      parse_elements h hf (t := 26) (by decide) (by decide) rfl (fun x _ => (hhost.length_serialize x).symm)
        (fun x _ => HostInfo.byteSize_lt h x) (fun x _ _ => hhost.round_trip x)]
    rw [foldl_add (fun x (m : GetRouteResponse) => { m with host := m.host ++ [x] })
      (fun l => ⟨mergeScalar m.modid v.modid, mergeScalar m.cmdid v.cmdid, l⟩) (fun _ _ => rfl) m.host v.host]
    rfl
  merge_empty := by
    intro v
    show GetRouteResponse.mk (mergeScalar 0 v.modid) (mergeScalar 0 v.cmdid) ([] ++ v.host) = v
    rw [mergeScalar_zero, mergeScalar_zero, List.nil_append]
  length_serialize := by
    intro v
    have hhost := HostInfo.sound h
    show (writeInt32 R 8 v.modid ++ writeInt32 R 16 v.cmdid ++ v.host.flatMap fun x =>
      writeNested R 26 ((HostInfo.codec R).byteSize x) ((HostInfo.codec R).serialize x)).length =
      (v.host.map fun x => messageSize R ((HostInfo.codec R).byteSize x)).sum + int32Size R v.modid +
        int32Size R v.cmdid
    rw [List.length_append, List.length_append, length_writeInt32 h, length_writeInt32 h,
      length_elements h 26 hhost.length_serialize]
    omega

/-- The size of a list is between those of the smallest hosts and of the largest. -/
theorem byteSize_hosts (h : R.Lawful) (modid cmdid : Int32) (hosts : List HostInfo) :
    2 * hosts.length ≤ (codec R).byteSize ⟨modid, cmdid, hosts⟩ ∧
      (codec R).byteSize ⟨modid, cmdid, hosts⟩ ≤ 24 * hosts.length + 22 := by
  have hmodid := int32Size_le h modid
  have hcmdid := int32Size_le h cmdid
  have hone : ∀ x : HostInfo, 2 ≤ messageSize R ((HostInfo.codec R).byteSize x) ∧
      messageSize R ((HostInfo.codec R).byteSize x) ≤ 24 := by
    intro x
    have hx := HostInfo.byteSize_le h x
    have hword : (UInt64.ofNat ((HostInfo.codec R).byteSize x)).toNat < 128 := by
      rw [UInt64.toNat_ofNat']
      omega
    unfold messageSize
    rw [h.varintSize, h.length_small _ hword]
    omega
  have hsum : 2 * hosts.length ≤ (hosts.map fun x => messageSize R ((HostInfo.codec R).byteSize x)).sum ∧
      (hosts.map fun x => messageSize R ((HostInfo.codec R).byteSize x)).sum ≤ 24 * hosts.length := by
    induction hosts with
    | nil => exact ⟨le_refl _, le_refl _⟩
    | cons x hosts ih =>
      have hx := hone x
      rw [List.map_cons, List.sum_cons, List.length_cons]
      omega
  show 2 * hosts.length ≤ (hosts.map fun x => messageSize R ((HostInfo.codec R).byteSize x)).sum +
      int32Size R modid + int32Size R cmdid ∧
    (hosts.map fun x => messageSize R ((HostInfo.codec R).byteSize x)).sum + int32Size R modid +
      int32Size R cmdid ≤ 24 * hosts.length + 22
  omega

end GetRouteResponse

namespace HostCallResult

theorem allShrink (h : R.Lawful) : AllShrink (fields R) := by
  refine allShrink_switch fun c hc => ?_
  simp only [List.mem_cons, List.not_mem_nil, or_false] at hc
  rcases hc with rfl | rfl | rfl | rfl | rfl
  · exact shrinks_varint64 h _
  · exact shrinks_varint64 h _
  · exact shrinks_varint32 h _
  · exact shrinks_varint32 h _
  · exact shrinks_varint64 h _

theorem sound (h : R.Lawful) : (codec R).Sound where
  parse_nil := fun m => rfl
  parse_serialize := by
    intro m v rest
    have hf := allShrink h
    show parse R (fields R) m ((writeInt32 R 8 v.ip ++ writeInt32 R 16 v.port ++ writeUInt32 R 24 v.succ ++
      writeUInt32 R 32 v.err ++ writeBool R 40 v.overload) ++ rest) = _
    simp only [List.append_assoc]
    rw [parse_int32 h hf 8 ip (fun v m => { m with ip := v }) (by decide) (by decide) rfl _ rfl,
      parse_int32 h hf 16 port (fun v m => { m with port := v }) (by decide) (by decide) rfl _ rfl,
      parse_uint32 h hf 24 succ (fun v m => { m with succ := v }) (by decide) (by decide) rfl _ rfl,
      parse_uint32 h hf 32 err (fun v m => { m with err := v }) (by decide) (by decide) rfl _ rfl,
      parse_bool h hf 40 overload (fun v m => { m with overload := v }) (by decide) (by decide) rfl _ rfl]
    rfl
  merge_empty := by
    intro v
    show HostCallResult.mk (mergeScalar 0 v.ip) (mergeScalar 0 v.port) (mergeScalar 0 v.succ)
      (mergeScalar 0 v.err) (false || v.overload) = v
    rw [mergeScalar_zero, mergeScalar_zero, mergeScalar_zero, mergeScalar_zero, Bool.false_or]
  length_serialize := by
    intro v
    show (writeInt32 R 8 v.ip ++ writeInt32 R 16 v.port ++ writeUInt32 R 24 v.succ ++
      writeUInt32 R 32 v.err ++ writeBool R 40 v.overload).length =
      int32Size R v.ip + int32Size R v.port + uint32Size R v.succ + uint32Size R v.err +
        if v.overload then 1 + 1 else 0
    simp only [List.length_append]
    rw [length_writeInt32 h, length_writeInt32 h, length_writeUInt32 h, length_writeUInt32 h, length_writeBool h]

/-- So is the result of a host. -/
theorem byteSize_lt (h : R.Lawful) (v : HostCallResult) : (codec R).byteSize v < 2 ^ 31 - 16 := by
  have hip := int32Size_le h v.ip
  have hport := int32Size_le h v.port
  have hsucc := uint32Size_le h v.succ
  have herr := uint32Size_le h v.err
  show int32Size R v.ip + int32Size R v.port + uint32Size R v.succ + uint32Size R v.err +
    (if v.overload then 1 + 1 else 0) < 2 ^ 31 - 16
  split <;> omega

end HostCallResult

namespace ReportStatusRequest

/-- The switch with the results read turn by turn. -/
def plainFields (R : Runtime) : UInt32 → Option (Reader ReportStatusRequest) := switch [
  ⟨1, 8, varint64 R fun v m => { m with modid := wordInt32 v }⟩,
  ⟨2, 16, varint64 R fun v m => { m with cmdid := wordInt32 v }⟩,
  ⟨3, 24, varint64 R fun v m => { m with caller := wordInt32 v }⟩,
  ⟨4, 34, addResults R⟩,
  ⟨5, 40, varint32 R fun v m => { m with ts := v }⟩]

theorem allShrink (h : R.Lawful) : AllShrink (plainFields R) := by
  refine allShrink_switch fun c hc => ?_
  simp only [List.mem_cons, List.not_mem_nil, or_false] at hc
  rcases hc with rfl | rfl | rfl | rfl | rfl
  · exact shrinks_varint64 h _
  · exact shrinks_varint64 h _
  · exact shrinks_varint64 h _
  · exact shrinks_nested h _ _ _
  · exact shrinks_varint32 h _

theorem parse_plain (h : R.Lawful) (m : ReportStatusRequest) (bs : List UInt8) :
    (codec R).parse m bs = parse R (plainFields R) m bs :=
  parse_repeated h (allShrink h) (t := 34) (addResults R) (by decide) (by decide) rfl rfl
    (fun _ htag => switch_of_ne [_, _, _] [_] (by decide) htag) m bs

theorem sound (h : R.Lawful) : (codec R).Sound where
  parse_nil := fun m => rfl
  parse_serialize := by
    intro m v rest
    have hf := allShrink h
    have hres := HostCallResult.sound h
    rw [parse_plain h, parse_plain h]
    show parse R (plainFields R) m ((writeInt32 R 8 v.modid ++ writeInt32 R 16 v.cmdid ++
      writeInt32 R 24 v.caller ++ (v.results.flatMap fun x =>
        writeNested R 34 ((HostCallResult.codec R).byteSize x) ((HostCallResult.codec R).serialize x)) ++
      writeUInt32 R 40 v.ts) ++ rest) = _
    simp only [List.append_assoc]
    rw [parse_int32 h hf 8 modid (fun v m => { m with modid := v }) (by decide) (by decide) rfl _ rfl,
      parse_int32 h hf 16 cmdid (fun v m => { m with cmdid := v }) (by decide) (by decide) rfl _ rfl,
      parse_int32 h hf 24 caller (fun v m => { m with caller := v }) (by decide) (by decide) rfl _ rfl,
      parse_elements h hf (t := 34) (by decide) (by decide) rfl (fun x _ => (hres.length_serialize x).symm)
        (fun x _ => HostCallResult.byteSize_lt h x) (fun x _ _ => hres.round_trip x)]
    rw [foldl_add (fun x (m : ReportStatusRequest) => { m with results := m.results ++ [x] })
      (fun l => ⟨mergeScalar m.modid v.modid, mergeScalar m.cmdid v.cmdid, mergeScalar m.caller v.caller, l, m.ts⟩)
      (fun _ _ => rfl) m.results v.results,
      parse_uint32 h hf 40 ts (fun v m => { m with ts := v }) (by decide) (by decide) rfl _ rfl]
    rfl
  merge_empty := by
    intro v
    show ReportStatusRequest.mk (mergeScalar 0 v.modid) (mergeScalar 0 v.cmdid) (mergeScalar 0 v.caller)
      ([] ++ v.results) (mergeScalar 0 v.ts) = v
    rw [mergeScalar_zero, mergeScalar_zero, mergeScalar_zero, mergeScalar_zero, List.nil_append]
  length_serialize := by
    intro v
    have hres := HostCallResult.sound h
    show (writeInt32 R 8 v.modid ++ writeInt32 R 16 v.cmdid ++ writeInt32 R 24 v.caller ++
      (v.results.flatMap fun x =>
        writeNested R 34 ((HostCallResult.codec R).byteSize x) ((HostCallResult.codec R).serialize x)) ++
      writeUInt32 R 40 v.ts).length =
      (v.results.map fun x => messageSize R ((HostCallResult.codec R).byteSize x)).sum + int32Size R v.modid +
        int32Size R v.cmdid + int32Size R v.caller + uint32Size R v.ts
    simp only [List.length_append]
    rw [length_writeInt32 h, length_writeInt32 h, length_writeInt32 h, length_writeUInt32 h,
      length_elements h 34 hres.length_serialize]
    omega

end ReportStatusRequest

namespace GetHostRequest

theorem allShrink (h : R.Lawful) : AllShrink (fields R) := by
  refine allShrink_switch fun c hc => ?_
  simp only [List.mem_cons, List.not_mem_nil, or_false] at hc
  rcases hc with rfl | rfl | rfl
  · exact shrinks_varint32 h _
  · exact shrinks_varint64 h _
  · exact shrinks_varint64 h _

theorem sound (h : R.Lawful) : (codec R).Sound where
  parse_nil := fun m => rfl
  parse_serialize := by
    intro m v rest
    have hf := allShrink h
    show parse R (fields R) m ((writeUInt32 R 8 v.seq ++ writeInt32 R 16 v.modid ++ writeInt32 R 24 v.cmdid) ++
      rest) = _
    rw [List.append_assoc, List.append_assoc,
      parse_uint32 h hf 8 seq (fun v m => { m with seq := v }) (by decide) (by decide) rfl _ rfl,
      parse_int32 h hf 16 modid (fun v m => { m with modid := v }) (by decide) (by decide) rfl _ rfl,
      parse_int32 h hf 24 cmdid (fun v m => { m with cmdid := v }) (by decide) (by decide) rfl _ rfl]
    rfl
  merge_empty := by
    intro v
    show GetHostRequest.mk (mergeScalar 0 v.seq) (mergeScalar 0 v.modid) (mergeScalar 0 v.cmdid) = v
    rw [mergeScalar_zero, mergeScalar_zero, mergeScalar_zero]
  length_serialize := by
    intro v
    show (writeUInt32 R 8 v.seq ++ writeInt32 R 16 v.modid ++ writeInt32 R 24 v.cmdid).length =
      uint32Size R v.seq + int32Size R v.modid + int32Size R v.cmdid
    rw [List.length_append, List.length_append, length_writeUInt32 h, length_writeInt32 h, length_writeInt32 h]

theorem byteSize_le (h : R.Lawful) (v : GetHostRequest) : (codec R).byteSize v ≤ 33 := by
  have hseq := uint32Size_le h v.seq
  have hmodid := int32Size_le h v.modid
  have hcmdid := int32Size_le h v.cmdid
  show uint32Size R v.seq + int32Size R v.modid + int32Size R v.cmdid ≤ 33
  omega

end GetHostRequest

/-- A host that may be there is parsed into the one that may be there already. -/
theorem parse_host (h : R.Lawful) (hf : AllShrink fs) (t : UInt8) (get : μ → Option HostInfo)
    (put : Option HostInfo → μ → μ) (h0 : t ≠ 0) (hlt : t.toNat < 128)
    (hfield : fs t.toUInt32 =
      some (nested R (fun m => (get m).getD ⟨0, 0⟩) (fun v m => put (some v) m) (HostInfo.codec R).parse))
    (m : μ) (hput : put (get m) m = m) (v : Option HostInfo) (rest : List UInt8) :
    parse R fs m ((v.toList.flatMap fun x =>
        writeNested R t ((HostInfo.codec R).byteSize x) ((HostInfo.codec R).serialize x)) ++ rest) =
      parse R fs (put (mergeHost (HostInfo.codec R).mergeFrom (get m) v) m) rest := by
  have hhost := HostInfo.sound h
  cases v with
  | none =>
    show parse R fs m rest = parse R fs (put (get m) m) rest
    rw [hput]
  | some x =>
    rw [Option.toList_some, List.flatMap_cons, List.flatMap_nil, List.append_nil]
    exact parse_nested h hf h0 hlt hfield (hhost.length_serialize x).symm (HostInfo.byteSize_lt h x)
      (hhost.parse_into _ x)

theorem mergeHost_none (h : R.Lawful) (v : Option HostInfo) :
    mergeHost (HostInfo.codec R).mergeFrom none v = v := by
  cases v with
  | none => rfl
  | some x => exact congrArg some ((HostInfo.sound h).merge_empty x)

/-- A host that may be there is small. -/
theorem hostSize_le (h : R.Lawful) (v : Option HostInfo) :
    (v.toList.map fun x => messageSize R ((HostInfo.codec R).byteSize x)).sum ≤ 24 := by
  cases v with
  | none => exact Nat.zero_le _
  | some x =>
    have hle := HostInfo.byteSize_le h x
    have hone : (R.writeVarint (UInt64.ofNat ((HostInfo.codec R).byteSize x))).length = 1 := by
      apply h.length_small
      rw [UInt64.toNat_ofNat']
      omega
    rw [Option.toList_some, List.map_cons, List.map_nil, List.sum_cons, List.sum_nil]
    unfold messageSize
    rw [h.varintSize, hone]
    omega

namespace GetHostResponseFields

theorem allShrink (h : R.Lawful) : AllShrink (fields R) := by
  refine allShrink_switch fun c hc => ?_
  simp only [List.mem_cons, List.not_mem_nil, or_false] at hc
  rcases hc with rfl | rfl | rfl | rfl | rfl
  · exact shrinks_varint32 h _
  · exact shrinks_varint64 h _
  · exact shrinks_varint64 h _
  · exact shrinks_varint64 h _
  · exact shrinks_nested h _ _ _

theorem sound (h : R.Lawful) : (codec R).Sound where
  parse_nil := fun m => rfl
  parse_serialize := by
    intro m v rest
    have hf := allShrink h
    show parse R (fields R) m ((writeUInt32 R 8 v.seq ++ writeInt32 R 16 v.modid ++ writeInt32 R 24 v.cmdid ++
      writeInt32 R 32 v.retcode ++ v.host.toList.flatMap fun x =>
        writeNested R 42 ((HostInfo.codec R).byteSize x) ((HostInfo.codec R).serialize x)) ++ rest) = _
    simp only [List.append_assoc]
    rw [parse_uint32 h hf 8 seq (fun v m => { m with seq := v }) (by decide) (by decide) rfl _ rfl,
      parse_int32 h hf 16 modid (fun v m => { m with modid := v }) (by decide) (by decide) rfl _ rfl,
      parse_int32 h hf 24 cmdid (fun v m => { m with cmdid := v }) (by decide) (by decide) rfl _ rfl,
      parse_int32 h hf 32 retcode (fun v m => { m with retcode := v }) (by decide) (by decide) rfl _ rfl,
      parse_host h hf 42 host (fun v m => { m with host := v }) (by decide) (by decide) rfl _ rfl]
    rfl
  merge_empty := by
    intro v
    show GetHostResponseFields.mk (mergeScalar 0 v.seq) (mergeScalar 0 v.modid) (mergeScalar 0 v.cmdid)
      (mergeScalar 0 v.retcode) (mergeHost (HostInfo.codec R).mergeFrom none v.host) = v
    rw [mergeScalar_zero, mergeScalar_zero, mergeScalar_zero, mergeScalar_zero, mergeHost_none h]
  length_serialize := by
    intro v
    have hhost := HostInfo.sound h
    show (writeUInt32 R 8 v.seq ++ writeInt32 R 16 v.modid ++ writeInt32 R 24 v.cmdid ++
      writeInt32 R 32 v.retcode ++ v.host.toList.flatMap fun x =>
        writeNested R 42 ((HostInfo.codec R).byteSize x) ((HostInfo.codec R).serialize x)).length =
      (v.host.toList.map fun x => messageSize R ((HostInfo.codec R).byteSize x)).sum + uint32Size R v.seq +
        int32Size R v.modid + int32Size R v.cmdid + int32Size R v.retcode
    simp only [List.length_append]
    rw [length_writeUInt32 h, length_writeInt32 h, length_writeInt32 h, length_writeInt32 h,
      length_elements h 42 hhost.length_serialize]
    omega

theorem byteSize_le (h : R.Lawful) (v : GetHostResponseFields) : (codec R).byteSize v ≤ 68 := by
  have hhost := hostSize_le h v.host
  have hseq := uint32Size_le h v.seq
  have hmodid := int32Size_le h v.modid
  have hcmdid := int32Size_le h v.cmdid
  have hret := int32Size_le h v.retcode
  show (v.host.toList.map fun x => messageSize R ((HostInfo.codec R).byteSize x)).sum + uint32Size R v.seq +
    int32Size R v.modid + int32Size R v.cmdid + int32Size R v.retcode ≤ 68
  omega

end GetHostResponseFields

namespace ReportRequestFields

theorem allShrink (h : R.Lawful) : AllShrink (fields R) := by
  refine allShrink_switch fun c hc => ?_
  simp only [List.mem_cons, List.not_mem_nil, or_false] at hc
  rcases hc with rfl | rfl | rfl | rfl
  · exact shrinks_varint64 h _
  · exact shrinks_varint64 h _
  · exact shrinks_nested h _ _ _
  · exact shrinks_varint64 h _

theorem sound (h : R.Lawful) : (codec R).Sound where
  parse_nil := fun m => rfl
  parse_serialize := by
    intro m v rest
    have hf := allShrink h
    show parse R (fields R) m ((writeInt32 R 8 v.modid ++ writeInt32 R 16 v.cmdid ++
      (v.host.toList.flatMap fun x =>
        writeNested R 26 ((HostInfo.codec R).byteSize x) ((HostInfo.codec R).serialize x)) ++
      writeInt32 R 32 v.retcode) ++ rest) = _
    simp only [List.append_assoc]
    rw [parse_int32 h hf 8 modid (fun v m => { m with modid := v }) (by decide) (by decide) rfl _ rfl,
      parse_int32 h hf 16 cmdid (fun v m => { m with cmdid := v }) (by decide) (by decide) rfl _ rfl,
      parse_host h hf 26 host (fun v m => { m with host := v }) (by decide) (by decide) rfl _ rfl,
      parse_int32 h hf 32 retcode (fun v m => { m with retcode := v }) (by decide) (by decide) rfl _ rfl]
    rfl
  merge_empty := by
    intro v
    show ReportRequestFields.mk (mergeScalar 0 v.modid) (mergeScalar 0 v.cmdid)
      (mergeHost (HostInfo.codec R).mergeFrom none v.host) (mergeScalar 0 v.retcode) = v
    rw [mergeScalar_zero, mergeScalar_zero, mergeScalar_zero, mergeHost_none h]
  length_serialize := by
    intro v
    have hhost := HostInfo.sound h
    show (writeInt32 R 8 v.modid ++ writeInt32 R 16 v.cmdid ++ (v.host.toList.flatMap fun x =>
      writeNested R 26 ((HostInfo.codec R).byteSize x) ((HostInfo.codec R).serialize x)) ++
      writeInt32 R 32 v.retcode).length =
      (v.host.toList.map fun x => messageSize R ((HostInfo.codec R).byteSize x)).sum + int32Size R v.modid +
        int32Size R v.cmdid + int32Size R v.retcode
    simp only [List.length_append]
    rw [length_writeInt32 h, length_writeInt32 h, length_writeInt32 h,
      length_elements h 26 hhost.length_serialize]
    omega

theorem byteSize_le (h : R.Lawful) (v : ReportRequestFields) : (codec R).byteSize v ≤ 57 := by
  have hhost := hostSize_le h v.host
  have hmodid := int32Size_le h v.modid
  have hcmdid := int32Size_le h v.cmdid
  have hret := int32Size_le h v.retcode
  show (v.host.toList.map fun x => messageSize R ((HostInfo.codec R).byteSize x)).sum + int32Size R v.modid +
    int32Size R v.cmdid + int32Size R v.retcode ≤ 57
  omega

end ReportRequestFields

/-- **Every message of `lbrss.proto`** is parsed as it was serialised, and several of them one behind
the other to their merge. -/
theorem lbrss_messages (h : R.Lawful) :
    (HostInfo.codec R).RoundTrips ∧ (GetRouteRequest.codec R).RoundTrips ∧ (GetRouteResponse.codec R).RoundTrips ∧
      (HostCallResult.codec R).RoundTrips ∧ (ReportStatusRequest.codec R).RoundTrips ∧
      (GetHostRequest.codec R).RoundTrips ∧ (GetHostResponseFields.codec R).RoundTrips ∧
      (ReportRequestFields.codec R).RoundTrips :=
  ⟨(HostInfo.sound h).roundTrips, (GetRouteRequest.sound h).roundTrips, (GetRouteResponse.sound h).roundTrips,
    (HostCallResult.sound h).roundTrips, (ReportStatusRequest.sound h).roundTrips,
    (GetHostRequest.sound h).roundTrips, (GetHostResponseFields.sound h).roundTrips,
    (ReportRequestFields.sound h).roundTrips⟩

/-- In base 128: a negative number, and a list of hosts. -/
theorem lbrss_messages_base128 :
    let m : GetRouteResponse := ⟨-1, 2, [⟨3, 80⟩, ⟨0, 0⟩]⟩
    (GetRouteResponse.codec Varint.base128).serialize m =
        [8, 255, 255, 255, 255, 255, 255, 255, 255, 255, 1, 16, 2, 26, 4, 8, 3, 16, 80, 26, 0] ∧
      (GetRouteResponse.codec Varint.base128).parse ⟨0, 0, []⟩
        ((GetRouteResponse.codec Varint.base128).serialize m) = some m := by
  have hall := lbrss_messages Varint.base128_lawful
  exact ⟨by decide +kernel, hall.2.2.1.parse_serialize _⟩

/-- **The hosts of a route response and the results of a status report** are read in a loop of
their own. For all bytes, the parse is that of the loop that looks at every tag. -/
theorem repeated_fields_plain (h : R.Lawful) :
    (∀ m bs, (GetRouteResponse.codec R).parse m bs = parse R (GetRouteResponse.plainFields R) m bs) ∧
      ∀ m bs, (ReportStatusRequest.codec R).parse m bs = parse R (ReportStatusRequest.plainFields R) m bs :=
  ⟨GetRouteResponse.parse_plain h, ReportStatusRequest.parse_plain h⟩

/-- Two hosts with a field between them, and bytes that end too early. -/
theorem repeated_fields_plain_base128 :
    (∀ bs, (GetRouteResponse.codec Varint.base128).parse ⟨0, 0, []⟩ bs =
        parse Varint.base128 (GetRouteResponse.plainFields Varint.base128) ⟨0, 0, []⟩ bs) ∧
      (GetRouteResponse.codec Varint.base128).parse ⟨0, 0, []⟩ [26, 2, 8, 1, 8, 5, 26, 0] =
        some ⟨5, 0, [⟨1, 0⟩, ⟨0, 0⟩]⟩ ∧
      (GetRouteResponse.codec Varint.base128).parse ⟨0, 0, []⟩ [26, 2, 8] = none := by
  refine ⟨(repeated_fields_plain Varint.base128_lawful).1 _, ?_, ?_⟩
  · decide +kernel
  · decide +kernel

end Lbrss

end LbRpc
