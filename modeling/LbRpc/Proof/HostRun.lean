import LbRpc.Proof.LoadBalanceStep
import Mathlib.Data.List.Sublists

/-!
# The life of one host

* `step`: one report, as it reaches a host.
* `host_run`: every host that a load balancer holds was made by an `update` of its run
  and has been through a part of the reports made since.
* `Clocked`: the clock never goes back, from a report's entry to its `time(NULL)` in
  `set_idle` or `set_overload` and on to the next report.
-/

namespace LbRpc

/-- A report as it reaches its host: the clock at the entry of `report`, the clock when
`set_idle` or `set_overload` reads it, and the return code. -/
structure Report where
  currentTime : ℤ
  ts : ℤ
  retcode : Int32

namespace HostInfo

/-- One report. -/
def step (E : Env) (hi : HostInfo) (r : Report) : Except Fault HostInfo :=
  .ok (hi.report E r.currentTime r.ts r.retcode).1

/-- The clock never goes back. -/
def Clocked : ℤ → List Report → Prop
  | _, [] => True
  | c, r :: rs => c ≤ r.currentTime ∧ r.currentTime ≤ r.ts ∧ Clocked r.ts rs

end HostInfo

namespace LoadBalance

/-- The report that a call makes. -/
def Op.report? : Op → Option Report
  | .report currentTime ts _ _ retcode => some ⟨currentTime, ts, retcode⟩
  | _ => none

/-- `hi` was made by an update of the run and has been through reports made after it. -/
def MadeIn (E : Env) (ops : List Op) (a : Addr) (hi : HostInfo) : Prop :=
  ∃ pre now junk rsp post, ∃ g ∈ rsp.host, ∃ rs : List Report,
    ops = pre ++ .update now junk rsp :: post ∧ rs.Sublist (post.filterMap Op.report?) ∧
      Runs.run (HostInfo.step E)
        (HostInfo.new g.ip.toUInt32 g.port E.config.initSuccCnt.toUInt32 (junk a)) rs = .ok hi

variable {E : Env} {ops : List Op} {a : Addr} {hi : HostInfo}

theorem MadeIn.snoc (h : MadeIn E ops a hi) (op : Op) : MadeIn E (ops ++ [op]) a hi := by
  obtain ⟨pre, now, junk, rsp, post, g, hg, rs, rfl, hrs, hrun⟩ := h
  refine ⟨pre, now, junk, rsp, post ++ [op], g, hg, rs, by simp, ?_, hrun⟩
  rw [List.filterMap_append]
  exact hrs.trans (List.sublist_append_left _ _)

theorem MadeIn.report (h : MadeIn E ops a hi) (now ts : ℤ) (ip port rc : Int32) :
    MadeIn E (ops ++ [.report now ts ip port rc]) a (hi.report E now ts rc).1 := by
  obtain ⟨pre, now', junk, rsp, post, g, hg, rs, rfl, hrs, hrun⟩ := h
  refine ⟨pre, now', junk, rsp, post ++ [.report now ts ip port rc], g, hg, rs ++ [⟨now, ts, rc⟩],
    by simp, ?_, ?_⟩
  · rw [List.filterMap_append]
    exact hrs.append (List.Sublist.refl _)
  · exact Runs.run_snoc_ok.2 ⟨hi, hrun, rfl⟩

/-- **The hosts of a load balancer are runs of `HostInfo.step`.** -/
theorem host_run {modid cmdid accessCnt : Int32} {lb : LoadBalance}
    (hrun : Runs.run (step E) (new modid cmdid accessCnt) ops = .ok lb)
    (hr : lb.heap.read a = some hi) : MadeIn E ops a hi := by
  refine Runs.run_hist (I := fun ops lb => ∀ a hi, lb.heap.read a = some hi → MadeIn E ops a hi)
    ?_ ?_ hrun a hi hr
  · intro a hi h
    cases h
  · intro pre t op u _ hI hs a hi hread
    -- untouched, reported, or just made
    rcases step_host hs hread with ⟨h⟩ | ⟨-, h⟩ | ⟨-, hg⟩
    · exact (hI a hi h).snoc op
    · exact (hI a _ h).report _ _ _ _ _
    · exact ⟨pre, _, _, _, [], _, hg, [], rfl, List.Sublist.refl _, rfl⟩

end LoadBalance

end LbRpc
