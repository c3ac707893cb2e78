import LbRpc.Base.Places
import LbRpc.Base.Trim
import LbRpc.Reactor.ConfigFile

/-!
# What a configuration text says

A reading of the text as a whole, apart from the loop of `Load`: which lines are headers,
which are assignments, under which header a line lies, and which assignment is the last.

* `IsHeader`, `Assigns`: what a line is, told by how it is put together.
* `Under pre name`: a line behind the lines `pre` lies under a header with this name.
* `Value lines name key v`: the last assignment to the key under such headers.
* `getString_load`: this is what `GetString` returns after `Load`.
-/

namespace LbRpc

open Runs Trim

namespace ConfigFile

variable {line s key value name : List Char} {ls pre : List (List Char)} {st st' : Loading}

/-! ## Lines -/

/-- A header: more than two characters with square brackets around them, and the name inside. -/
def IsHeader (line name : List Char) : Prop :=
  ∃ inner, inner ≠ [] ∧ Trimmed isspace line ('[' :: inner ++ [']']) ∧ Trimmed isspace inner name

/-- **An assignment line.** It is no header, its sides are parted by the first `=`, and its
key is not empty and starts no comment. -/
structure Assigns (line key value : List Char) : Prop where
  notHeader : ∀ name, ¬ IsHeader line name
  sides : ∃ left right, line = left ++ '=' :: right ∧ '=' ∉ left ∧ Trimmed isspace left key ∧
    Trimmed isspace right value
  nonempty : key ≠ []
  notComment : key.head? ≠ some '#' ∧ key.head? ≠ some ';'

theorem trimmed_iff_trim {t : List Char} : Trimmed isspace s t ↔ trim s = t := trimmed_iff

/-- A line in brackets is what `isSection` takes apart. -/
theorem brackets_iff {t inner : List Char} (hne : inner ≠ []) :
    t = '[' :: inner ++ [']'] ↔ 2 < t.length ∧ t.head? = some '[' ∧ t.getLast? = some ']' ∧
      (t.drop 1).take (t.length - 2) = inner := by
  have hpos := List.length_pos_iff.2 hne
  constructor
  · rintro rfl
    have hlen : ('[' :: inner ++ [']']).length = inner.length + 2 := by simp
    exact ⟨by omega, rfl, List.getLast?_concat, by simp⟩
  · rintro ⟨hlen, hhead, hlast, hinner⟩
    cases t with
    | nil => cases hhead
    | cons c t =>
      have hc : c = '[' := by simpa using hhead
      induction t using List.reverseRecOn with
      | nil => simp at hlen
      | append_singleton t d _ =>
        rw [← List.cons_append, List.getLast?_concat] at hlast
        have hd : d = ']' := Option.some.inj hlast
        have ht : t = inner := by simpa using hinner
        rw [hc, hd, ht]
        rfl

/-- **`isSection` finds the headers.** -/
theorem isSection_iff : isSection line = some name ↔ IsHeader line name := by
  unfold isSection IsHeader
  dsimp only
  constructor
  · intro h
    by_cases hlen : (trim line).length ≤ 2
    · rw [if_pos hlen] at h
      cases h
    · rw [if_neg hlen] at h
      by_cases hends : (trim line).head? ≠ some '[' ∨ (trim line).getLast? ≠ some ']'
      · rw [if_pos hends] at h
        cases h
      · rw [if_neg hends] at h
        rw [not_or, not_not, not_not] at hends
        have hname : trim (((trim line).drop 1).take ((trim line).length - 2)) = name := Option.some.inj h
        have hne : ((trim line).drop 1).take ((trim line).length - 2) ≠ [] := by
          rw [← List.length_pos_iff, List.length_take, List.length_drop]
          omega
        refine ⟨_, hne, trimmed_iff_trim.2 ?_, trimmed_iff_trim.2 hname⟩
        exact (brackets_iff hne).2 ⟨by omega, hends.1, hends.2, rfl⟩
  · rintro ⟨inner, hne, hline, hname⟩
    obtain ⟨hlen, hhead, hlast, hinner⟩ := (brackets_iff hne).1 (trimmed_iff_trim.1 hline)
    rw [if_neg (by omega), if_neg (by simp [hhead, hlast]), hinner, trimmed_iff_trim.1 hname]

theorem isSection_none : isSection line = none ↔ ∀ name, ¬ IsHeader line name := by
  rw [Option.eq_none_iff_forall_ne_some]
  exact forall_congr' fun name => not_congr isSection_iff

/-- The first `=` of a line. -/
theorem split_first {left : List Char} (hleft : '=' ∉ left) (right : List Char) :
    (left ++ '=' :: right).takeWhile (· ≠ '=') = left ∧
      ((left ++ '=' :: right).dropWhile (· ≠ '=')).drop 1 = right := by
  have hall : ∀ c ∈ left, decide (c ≠ '=') = true := by
    intro c hc
    simpa using fun h : c = '=' => hleft (h ▸ hc)
  constructor
  · rw [List.takeWhile_append_of_pos hall]
    simp
  · rw [List.dropWhile_append_of_pos hall]
    simp

theorem assignment_iff : assignment line = some (key, value) ↔
    ∃ left right, line = left ++ '=' :: right ∧ '=' ∉ left ∧ Trimmed isspace left key ∧
      Trimmed isspace right value := by
  unfold assignment
  constructor
  · intro h
    by_cases hmem : '=' ∈ line
    · rw [if_pos hmem] at h
      obtain ⟨hkey, hvalue⟩ := Prod.mk.inj (Option.some.inj h)
      obtain ⟨left, right, rfl, hleft⟩ := List.eq_append_cons_of_mem hmem
      obtain ⟨htake, hdrop⟩ := split_first hleft right
      rw [htake] at hkey
      rw [hdrop] at hvalue
      exact ⟨left, right, rfl, hleft, trimmed_iff_trim.2 hkey, trimmed_iff_trim.2 hvalue⟩
    · rw [if_neg hmem] at h
      cases h
  · rintro ⟨left, right, rfl, hleft, hkey, hvalue⟩
    obtain ⟨htake, hdrop⟩ := split_first hleft right
    rw [if_pos (by simp), htake, hdrop, trimmed_iff_trim.1 hkey, trimmed_iff_trim.1 hvalue]

theorem skipped_iff : skipped key = false ↔
    key ≠ [] ∧ key.head? ≠ some '#' ∧ key.head? ≠ some ';' := by
  unfold skipped
  rw [decide_eq_false_iff_not, not_or, not_or]

theorem assigns_iff : Assigns line key value ↔
    isSection line = none ∧ assignment line = some (key, value) ∧ skipped key = false := by
  rw [isSection_none, assignment_iff, skipped_iff]
  constructor
  · exact fun h => ⟨h.notHeader, h.sides, h.nonempty, h.notComment⟩
  · exact fun ⟨hnot, hsides, hne, hcomment⟩ => ⟨hnot, hsides, hne, hcomment⟩

/-- **What a line is**: a header, an assignment, or nothing to `Load`. -/
theorem loadLine_cases (st : Loading) (line : List Char) :
    (∃ name, IsHeader line name ∧ loadLine st line = .ok (enter st name)) ∨
      (∃ key value, Assigns line key value ∧ loadLine st line = assign st key value) ∨
      ((∀ name, ¬ IsHeader line name) ∧ (∀ key value, ¬ Assigns line key value) ∧
        loadLine st line = .ok st) := by
  unfold loadLine
  cases hsec : isSection line with
  | some name => exact Or.inl ⟨name, isSection_iff.1 hsec, rfl⟩
  | none =>
    have hnot := isSection_none.1 hsec
    refine Or.inr ?_
    cases hassign : assignment line with
    | none =>
      refine Or.inr ⟨hnot, fun key value h => ?_, rfl⟩
      rw [assigns_iff, hassign] at h
      cases h.2.1
    | some kv =>
      obtain ⟨key, value⟩ := kv
      cases hskip : skipped key with
      | true =>
        refine Or.inr ⟨hnot, fun key' value' h => ?_, ?_⟩
        · obtain ⟨-, heq, hkept⟩ := assigns_iff.1 h
          rw [hassign] at heq
          cases heq
          rw [hskip] at hkept
          cases hkept
        · dsimp only
          rw [hskip, if_pos rfl]
      | false =>
        refine Or.inl ⟨key, value, assigns_iff.2 ⟨hsec, hassign, hskip⟩, ?_⟩
        dsimp only
        rw [hskip]
        rfl

/-- A line has one key and one value. -/
theorem Assigns.unique {key' value' : List Char} (h : Assigns line key value)
    (h' : Assigns line key' value') : key = key' ∧ value = value' := by
  have heq := (assigns_iff.1 h).2.1
  rw [(assigns_iff.1 h').2.1] at heq
  obtain ⟨hkey, hvalue⟩ := Prod.mk.inj (Option.some.inj heq)
  exact ⟨hkey.symm, hvalue.symm⟩

theorem IsHeader.unique {name' : List Char} (h : IsHeader line name) (h' : IsHeader line name') :
    name = name' := by
  have heq := isSection_iff.2 h
  rw [isSection_iff.2 h'] at heq
  exact (Option.some.inj heq).symm

/-! ## The whole text -/

/-- A line behind the lines `pre` lies under a header with this name: the last header of `pre`
has it. -/
def Under (pre : List (List Char)) (name : List Char) : Prop :=
  Places.Last (fun _ line name => IsHeader line name) pre name

/-- **The value of a key**: that of the last assignment to it under a header with this name. -/
def Value (lines : List (List Char)) (name key v : List Char) : Prop :=
  Places.Last (fun pre line v => Assigns line key v ∧ Under pre name) lines v

/-- No assignment stands before the first header. -/
def HeaderFirst (lines : List (List Char)) : Prop :=
  ∀ pre line post key value, lines = pre ++ line :: post → Assigns line key value →
    ∃ h ∈ pre, ∃ name, IsHeader h name

/-- What the loop of `Load` has made of the lines so far. -/
structure Reads (pre : List (List Char)) (st : Loading) : Prop where
  under : ∀ name, st.m = some name ↔ Under pre name
  find : ∀ name key v, st.file.find name key = some v ↔ Value pre name key v

theorem reads_nil : Reads [] ⟨empty, none⟩ where
  under := by
    intro name
    constructor
    · intro h
      cases h
    · exact fun h => absurd h Places.not_last_nil
  find := by
    intro name key v
    constructor
    · intro h
      have hnone : empty.find name key = none := rfl
      rw [hnone] at h
      cases h
    · exact fun h => absurd h Places.not_last_nil

/-- `m` moves with the headers alone. -/
theorem under_concat : Under (pre ++ [line]) name ↔
    IsHeader line name ∨ (Under pre name ∧ ∀ name', ¬ IsHeader line name') := Places.last_concat

theorem value_concat {v : List Char} : Value (pre ++ [line]) name key v ↔
    (Assigns line key v ∧ Under pre name) ∨
      (Value pre name key v ∧ ∀ v', ¬ (Assigns line key v' ∧ Under pre name)) := Places.last_concat

/-- A line that assigns nothing to the key leaves its value. -/
theorem value_skip {v : List Char} (h : ∀ v', ¬ Assigns line key v') :
    Value (pre ++ [line]) name key v ↔ Value pre name key v := by
  rw [value_concat]
  constructor
  · rintro (⟨ha, -⟩ | ⟨hv, -⟩)
    · exact absurd ha (h v)
    · exact hv
  · exact fun hv => Or.inr ⟨hv, fun v' ha => h v' ha.1⟩

theorem find_enter (st : Loading) (name name' key : List Char) :
    (enter st name).file.find name' key = st.file.find name' key := by
  unfold enter
  by_cases hsome : (st.file.map.lookup name).isSome
  · rw [if_pos hsome]
  · rw [if_neg hsome]
    unfold ConfigFile.find
    dsimp only
    by_cases hname : name' = name
    · -- a section that is new is empty
      have hnone : st.file.map.lookup name = none := by simpa using hsome
      rw [hname, AList.lookup_insert, hnone]
      rfl
    · rw [AList.lookup_insert_ne hname]

theorem Reads.enter (h : Reads pre st) (hline : IsHeader line name) : Reads (pre ++ [line]) (enter st name) where
  under := by
    intro name'
    have hm : (ConfigFile.enter st name).m = some name := by
      unfold ConfigFile.enter
      split <;> rfl
    rw [hm, under_concat]
    constructor
    · intro heq
      exact Or.inl (Option.some.inj heq ▸ hline)
    · rintro (hname | ⟨-, hnot⟩)
      · rw [hline.unique hname]
      · exact absurd hline (hnot name)
  find := by
    intro name' key v
    have hnot : ∀ v', ¬ Assigns line key v' := fun v' ha => ha.notHeader name hline
    rw [find_enter, value_skip hnot]
    exact h.find name' key v

theorem find_assign {m : List Char} (hm : st.m = some m) (h : assign st key value = .ok st')
    (name' key' : List Char) : st'.m = some m ∧
      st'.file.find name' key' = if name' = m ∧ key' = key then some value else st.file.find name' key' := by
  unfold assign at h
  rw [hm] at h
  cases h
  refine ⟨rfl, ?_⟩
  unfold ConfigFile.find
  dsimp only
  by_cases hname : name' = m
  · subst hname
    rw [AList.lookup_insert]
    dsimp only [Option.bind_some]
    by_cases hkey : key' = key
    · rw [if_pos ⟨rfl, hkey⟩, hkey, AList.lookup_insert]
    · rw [if_neg fun hand => hkey hand.2, AList.lookup_insert_ne hkey]
      cases st.file.map.lookup name' with
      | none => rfl
      | some m => rfl
  · rw [if_neg fun hand => hname hand.1, AList.lookup_insert_ne hname]

theorem Reads.assign (h : Reads pre st) (hline : Assigns line key value)
    (hok : assign st key value = .ok st') : Reads (pre ++ [line]) st' := by
  cases hm : st.m with
  | none =>
    unfold ConfigFile.assign at hok
    rw [hm] at hok
    cases hok
  | some m =>
    have hunder : ∀ name, Under pre name ↔ m = name := by
      intro name
      rw [← h.under, hm]
      exact Option.some_inj
    refine ⟨?_, ?_⟩
    · intro name
      rw [(find_assign hm hok [] []).1, under_concat, hunder]
      constructor
      · exact fun heq => Or.inr ⟨Option.some.inj heq, hline.notHeader⟩
      · rintro (hhead | ⟨heq, -⟩)
        · exact absurd hhead (hline.notHeader name)
        · rw [heq]
    · intro name key' v
      rw [(find_assign hm hok name key').2, value_concat, hunder]
      by_cases hat : name = m ∧ key' = key
      · -- the line overwrites what was there
        obtain ⟨rfl, rfl⟩ := hat
        rw [if_pos ⟨rfl, rfl⟩]
        constructor
        · rintro heq
          exact Or.inl ⟨Option.some.inj heq ▸ hline, rfl⟩
        · rintro (⟨ha, -⟩ | ⟨-, hnot⟩)
          · rw [(hline.unique ha).2]
          · exact absurd ⟨hline, rfl⟩ (hnot value)
      · rw [if_neg hat, h.find]
        have hnot : ∀ v', ¬ (Assigns line key' v' ∧ m = name) :=
          fun v' hand => hat ⟨hand.2.symm, (hand.1.unique hline).1⟩
        constructor
        · exact fun hv => Or.inr ⟨hv, hnot⟩
        · rintro (ha | ⟨hv, -⟩)
          · exact absurd ha (hnot v)
          · exact hv

/-- A line that is neither changes nothing. -/
theorem Reads.skip (h : Reads pre st) (hhead : ∀ name, ¬ IsHeader line name)
    (hassign : ∀ key value, ¬ Assigns line key value) : Reads (pre ++ [line]) st where
  under := by
    intro name
    rw [h.under, under_concat]
    constructor
    · exact fun hu => Or.inr ⟨hu, hhead⟩
    · exact fun hu => (hu.resolve_left (hhead name)).1
  find := by
    intro name key v
    rw [value_skip (hassign key)]
    exact h.find name key v

/-- A header among the lines so far is the section that `m` points to. -/
theorem Reads.m_of_header (h : Reads pre st) (hmem : ∃ l ∈ pre, ∃ name, IsHeader l name) :
    st.m ≠ none := by
  obtain ⟨l, hl, name, hname⟩ := hmem
  obtain ⟨before, after, rfl⟩ := List.append_of_mem hl
  obtain ⟨last, hlast⟩ := Places.exists_last
    (P := fun _ line name => IsHeader line name) ⟨before, l, after, name, rfl, hname⟩
  rw [(h.under last).2 hlast]
  simp

/-- **One round of the loop** of `Load`. -/
theorem Reads.step (h : Reads pre st)
    (hfirst : ∀ key value, Assigns line key value → ∃ l ∈ pre, ∃ name, IsHeader l name) :
    ∃ st', loadLine st line = .ok st' ∧ Reads (pre ++ [line]) st' := by
  rcases loadLine_cases st line with ⟨name, hline, hload⟩ | ⟨key, value, hline, hload⟩ | ⟨hhead, hassign, hload⟩
  · exact ⟨_, hload, h.enter hline⟩
  · obtain ⟨m, hm⟩ := Option.ne_none_iff_exists'.1 (h.m_of_header (hfirst key value hline))
    have hok : ∃ st', ConfigFile.assign st key value = .ok st' := by
      unfold ConfigFile.assign
      rw [hm]
      exact ⟨_, rfl⟩
    obtain ⟨st', hst⟩ := hok
    exact ⟨st', hload.trans hst, h.assign hline hst⟩
  · exact ⟨st, hload, h.skip hhead hassign⟩

/-- The loop reads every text without an assignment before the first header. -/
theorem reads_lines (hfirst : HeaderFirst ls) :
    Always loadLine Reads ⟨empty, none⟩ ls := by
  refine always_of_step reads_nil fun pre line hpre st _ h => h.step fun key value hline => ?_
  obtain ⟨post, rfl⟩ := hpre
  exact hfirst pre line post key value (by simp) hline

/-- Behind a header in the first line all assignments are behind a header. -/
theorem headerFirst_cons (h : IsHeader line name) : HeaderFirst (line :: ls) := by
  intro pre line' post key value heq hline
  cases pre with
  | nil =>
    obtain ⟨rfl, -⟩ := List.cons.inj heq
    exact absurd h (hline.notHeader name)
  | cons l pre =>
    obtain ⟨rfl, -⟩ := List.cons.inj heq
    exact ⟨line, List.mem_cons_self, name, h⟩

/-- **`GetString` returns what the text says.** For a text in which no assignment stands before
the first header, `Load` succeeds, and then the value of a key under a name is that of the last
assignment to the key under a header with that name, or the default where there is none. -/
theorem getString_load (text : List Char) (hfirst : HeaderFirst (lines text)) :
    ∃ cf, load text = .ok cf ∧ ∀ s k d,
      (∀ v, Value (lines text) s k v → cf.getString s k d = v) ∧
      ((∀ v, ¬ Value (lines text) s k v) → cf.getString s k d = d) := by
  obtain ⟨st, hst, hreads⟩ := reads_lines hfirst (lines text) (List.prefix_refl _)
  refine ⟨st.file, ?_, fun s k d => ⟨fun v hv => ?_, fun hnone => ?_⟩⟩
  · unfold load
    rw [hst]
  · unfold getString
    rw [(hreads.find s k v).2 hv]
    rfl
  · have hfind : st.file.find s k = none := by
      rw [Option.eq_none_iff_forall_ne_some]
      exact fun v hv => hnone v ((hreads.find s k v).1 hv)
    unfold getString
    rw [hfind]
    rfl

/-- A section that is opened twice, and a key that is assigned in both of its parts. -/
def reopened : List Char := "[a]\nk = 1\n[b]\nk = 3\n[ a ]\n k = 2 ".toList

theorem getString_reopened : ∃ cf, load reopened = .ok cf ∧ cf.getString ['a'] ['k'] [] = ['2'] := by
  have hlines : lines reopened =
      ["[a]".toList, "k = 1".toList, "[b]".toList, "k = 3".toList, "[ a ]".toList, " k = 2 ".toList] := by
    decide
  have hfirst : HeaderFirst (lines reopened) := by
    rw [hlines]
    exact headerFirst_cons (isSection_iff.1 (by decide : isSection "[a]".toList = some ['a']))
  have hunder : Under ["[a]".toList, "k = 1".toList, "[b]".toList, "k = 3".toList, "[ a ]".toList] ['a'] := by
    have hlast : Under (["[a]".toList, "k = 1".toList, "[b]".toList, "k = 3".toList] ++ ["[ a ]".toList]) ['a'] :=
      under_concat.2 (Or.inl (isSection_iff.1 (by decide : isSection "[ a ]".toList = some ['a'])))
    exact hlast
  have hvalue : Value (lines reopened) ['a'] ['k'] ['2'] := by
    rw [hlines]
    exact value_concat.2 (Or.inl ⟨assigns_iff.2 (by decide), hunder⟩)
  obtain ⟨cf, hload, hget⟩ := getString_load reopened hfirst
  exact ⟨cf, hload, (hget ['a'] ['k'] []).1 ['2'] hvalue⟩

end ConfigFile

end LbRpc
