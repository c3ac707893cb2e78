import Mathlib.Data.Set.Basic
import LbRpc.Web.Models

/-!
# Which edits of the console are announced

A row of `RouteChange` tells the DNS server whose hosts have changed. `HandleAddRoute` and
`HandleUpdate` insert one for the pair that the new row carries, `HandlerDelete` inserts
none.

* `Announced`: each pair whose host set an edit changes gets a row of `RouteChange`.
* `announced_iff`: so it is **if and only if** every row that the edit overwrites or deletes
  keeps its pair, or leaves a second row with the same pair and host behind.
-/

namespace LbRpc

/-- The pair that a row is for. -/
def RouteRow.pair (r : RouteRow) : UInt32 × UInt32 := (r.modid, r.cmdid)

/-- The host that a row names. -/
def RouteRow.host (r : RouteRow) : UInt32 × UInt32 := (r.serverip, r.serverport)

/-- The pair that a row of `RouteChange` is for. -/
def ChangeRow.pair (r : ChangeRow) : UInt32 × UInt32 := (r.modid, r.cmdid)

/-- The host set of a pair. -/
def RouteTable.hosts (t : RouteTable) (mod : UInt32 × UInt32) : Set (UInt32 × UInt32) :=
  {h | ∃ r ∈ t.rows, r.pair = mod ∧ r.host = h}

namespace Edit

/-- The key of the row that an edit overwrites or deletes. -/
def target : Edit → Option ℕ
  | .add .. => none
  | .update id .. => some id
  | .delete id => some id

/-- **Each pair whose host set the edit changes has a new row of `RouteChange`.** -/
def Announced (e : Edit) (now later : ℤ) (db : Db) : Prop :=
  ∀ mod, (e.handle now later db).routeData.hosts mod ≠ db.routeData.hosts mod →
    ∃ r ∈ (e.handle now later db).routeChange.rows, r ∉ db.routeChange.rows ∧ r.pair = mod

/-- **Nothing is lost without a word**: the row that the edit overwrites or deletes has the pair
of the new row already, or another row has the same pair and host. -/
def Covered (e : Edit) (t : RouteTable) : Prop :=
  ∀ r ∈ t.rows, e.target = some r.id →
    e.mod = some r.pair ∨ ∃ q ∈ t.rows, e.target ≠ some q.id ∧ q.pair = r.pair ∧ q.host = r.host

instance (e : Edit) (t : RouteTable) : Decidable (e.Covered t) :=
  inferInstanceAs (Decidable (∀ r ∈ t.rows, e.target = some r.id →
    e.mod = some r.pair ∨ ∃ q ∈ t.rows, e.target ≠ some q.id ∧ q.pair = r.pair ∧ q.host = r.host))

variable {e : Edit} {t : RouteTable} {db : Db} {mod : UInt32 × UInt32} {r : RouteRow}

/-- Of a pair that the edit does not name, the rows stay that it does not touch. -/
theorem mem_write (hmod : e.mod ≠ some mod) :
    (r ∈ (e.write t).rows ∧ r.pair = mod) ↔ (r ∈ t.rows ∧ e.target ≠ some r.id ∧ r.pair = mod) := by
  cases e with
  | add modid cmdid serverip serverport =>
    have hnew : (RouteRow.mk t.next modid cmdid serverip serverport).pair ≠ mod :=
      fun h => hmod (by rw [← h]; rfl)
    constructor
    · rintro ⟨hr, hm⟩
      rcases List.mem_append.1 hr with h | h
      · exact ⟨h, by simp [target], hm⟩
      · rw [List.mem_singleton.1 h] at hm
        exact absurd hm hnew
    · rintro ⟨hr, -, hm⟩
      exact ⟨List.mem_append_left _ hr, hm⟩
  | update id modid cmdid serverip serverport =>
    have hnew : ∀ i, (RouteRow.mk i modid cmdid serverip serverport).pair ≠ mod :=
      fun i h => hmod (by rw [← h]; rfl)
    constructor
    · rintro ⟨hr, hm⟩
      obtain ⟨q, hq, rfl⟩ := List.mem_map.1 hr
      by_cases hid : q.id = id
      · rw [if_pos hid] at hm
        exact absurd hm (hnew q.id)
      · rw [if_neg hid] at hm ⊢
        exact ⟨hq, fun h => hid (Option.some.inj h).symm, hm⟩
    · rintro ⟨hr, hid, hm⟩
      refine ⟨List.mem_map.2 ⟨r, hr, if_neg fun h => hid (by rw [h]; rfl)⟩, hm⟩
  | delete id =>
    constructor
    · rintro ⟨hr, hm⟩
      obtain ⟨hr', hid⟩ := List.mem_filter.1 hr
      have hid' : r.id ≠ id := of_decide_eq_true hid
      exact ⟨hr', fun h => hid' (Option.some.inj h).symm, hm⟩
    · rintro ⟨hr, hid, hm⟩
      exact ⟨List.mem_filter.2 ⟨hr, decide_eq_true fun h => hid (by rw [h]; rfl)⟩, hm⟩

theorem handle_routeData (now later : ℤ) : (e.handle now later db).routeData = e.write db.routeData := by
  unfold handle
  rcases e.mod with _ | ⟨modid, cmdid⟩ <;> rfl

/-- The pairs that get a row of `RouteChange`. -/
theorem inserted_iff (now later : ℤ) :
    (∃ r ∈ (e.handle now later db).routeChange.rows, r ∉ db.routeChange.rows ∧ r.pair = mod) ↔
      e.mod = some mod := by
  unfold handle
  rcases hm : e.mod with _ | ⟨modid, cmdid⟩
  · simp only [reduceCtorEq, iff_false]
    rintro ⟨r, hr, hnew, -⟩
    exact hnew hr
  · constructor
    · rintro ⟨r, hr, hnew, rfl⟩
      rcases List.mem_append.1 hr with h | h
      · exact absurd h hnew
      · rw [List.mem_singleton.1 h]
        rfl
    · intro h
      obtain rfl := Option.some.inj h
      refine ⟨⟨db.routeChange.next, modid, cmdid, now⟩,
        List.mem_append_right _ (List.mem_singleton.2 rfl), fun hold => ?_, rfl⟩
      -- its key is a fresh one
      exact absurd (db.routeChange.fresh _ hold) (Nat.lt_irrefl _)

/-- A pair that is not named keeps its hosts when every touched row of it is covered. -/
theorem hosts_write (hcov : e.Covered t) (hmod : e.mod ≠ some mod) :
    (e.write t).hosts mod = t.hosts mod := by
  ext h
  constructor
  · rintro ⟨r, hr, hm, rfl⟩
    obtain ⟨hr', -, hm'⟩ := (mem_write hmod).1 ⟨hr, hm⟩
    exact ⟨r, hr', hm', rfl⟩
  · rintro ⟨r, hr, hm, rfl⟩
    by_cases hid : e.target = some r.id
    · -- the row is gone, and its double stands in for it
      obtain ⟨q, hq, hqid, hqm, hqh⟩ := (hcov r hr hid).resolve_left (by rw [hm]; exact hmod)
      obtain ⟨hq', hqm'⟩ := (mem_write hmod).2 ⟨hq, hqid, hqm.trans hm⟩
      exact ⟨q, hq', hqm', hqh⟩
    · obtain ⟨hr', hm'⟩ := (mem_write hmod).2 ⟨hr, hid, hm⟩
      exact ⟨r, hr', hm', rfl⟩

theorem announced_of_covered (now later : ℤ) (hcov : e.Covered db.routeData) :
    e.Announced now later db := by
  intro mod hne
  rw [inserted_iff]
  by_contra hmod
  rw [handle_routeData] at hne
  exact hne (hosts_write hcov hmod)

theorem covered_of_announced {now later : ℤ} (h : e.Announced now later db) : e.Covered db.routeData := by
  intro r hr hid
  by_cases hmod : e.mod = some r.pair
  · exact Or.inl hmod
  right
  -- the pair got no row, so its hosts are what they were, the touched one among them
  have hsame : (e.write db.routeData).hosts r.pair = db.routeData.hosts r.pair := by
    by_contra hne
    rw [← handle_routeData now later] at hne
    exact hmod ((inserted_iff now later).1 (h r.pair hne))
  have hin : r.host ∈ (e.write db.routeData).hosts r.pair := by
    rw [hsame]
    exact ⟨r, hr, rfl, rfl⟩
  obtain ⟨q, hq, hqm, hqh⟩ := hin
  obtain ⟨hq', hqid, -⟩ := (mem_write hmod).1 ⟨hq, hqm⟩
  exact ⟨q, hq', hqid, hqm, hqh⟩

/-- **An edit announces every host set that it changes** if and only if it is covered. -/
theorem announced_iff (e : Edit) (now later : ℤ) (db : Db) :
    e.Announced now later db ↔ e.Covered db.routeData :=
  ⟨covered_of_announced, announced_of_covered now later⟩

/-- One host, of the pair (1, 1). -/
def oneHost : Db where
  routeData := RouteTable.empty.add 1 1 2130706433 80
  routeVersion := some 0
  routeChange := .empty

/-- Neither its deletion nor its move to the pair (2, 1) is announced. -/
theorem announced_fails :
    ¬ (Edit.delete 1).Announced 100 100 oneHost ∧
      ¬ (Edit.update 1 2 1 2130706433 80).Announced 100 100 oneHost := by
  have hdelete : ¬ (Edit.delete 1).Covered oneHost.routeData := by decide
  have hupdate : ¬ (Edit.update 1 2 1 2130706433 80).Covered oneHost.routeData := by decide
  exact ⟨fun h => hdelete (covered_of_announced h), fun h => hupdate (covered_of_announced h)⟩

end Edit

end LbRpc
