import Mathlib.Algebra.GroupWithZero.Nat
import Mathlib.Data.List.Infix
import Mathlib.Tactic.Common

/-!
# Runs of a machine that can fail

A machine is a step function `σ → ε → Except φ σ`: an event moves a state to the
next one or fails. `run` folds it over a list of events and stops at the first
failure.

* `run_hist`: an invariant that may mention the events so far holds after every run.
* `Always`: no event of the run fails and a property holds after every prefix.
* `always_iff`: the property holds throughout **iff** each event of the run meets
  the condition that makes its own step good.
* `AlwaysUpTo`, `alwaysUpTo_iff`: the same, where some failures are tolerated.
* `Throughout`: the same for the prefixes that do not fail.
* `Along`: each event of the run satisfies a side condition in the state it meets;
  `along_of_check` evaluates it.
* `zero_of_progress`: a measure that the events lower often enough gets to zero.
-/

namespace Runs

variable {σ ε φ : Type*} {step : σ → ε → Except φ σ}

/-- The state after the events `es`, or the failure of the first event that fails. -/
def run (step : σ → ε → Except φ σ) : σ → List ε → Except φ σ
  | s, [] => .ok s
  | s, e :: es =>
    match step s e with
    | .ok t => run step t es
    | .error f => .error f

@[simp] theorem run_nil (s : σ) : run step s [] = .ok s := rfl

/-- What was evaluated of an outcome is true of a result. -/
theorem ok_of_toOption {α β : Type*} {x : Except φ α} {g : α → β} {b : β} (h : x.toOption.map g = some b) :
    ∃ a, x = .ok a ∧ g a = b := by
  rcases x with f | a
  · cases h
  · exact ⟨a, rfl, Option.some.inj h⟩

theorem run_cons_ok {s u : σ} {e : ε} {es : List ε} :
    run step s (e :: es) = .ok u ↔ ∃ t, step s e = .ok t ∧ run step t es = .ok u := by
  cases h : step s e <;> simp [run, h]

theorem run_append (s : σ) (es fs : List ε) :
    run step s (es ++ fs) = (run step s es).bind fun t => run step t fs := by
  induction es generalizing s with
  | nil => rfl
  | cons e es ih =>
    simp only [List.cons_append, run]
    cases step s e with
    | ok t => exact ih t
    | error f => rfl

theorem run_append_ok {s u : σ} {es fs : List ε} :
    run step s (es ++ fs) = .ok u ↔ ∃ t, run step s es = .ok t ∧ run step t fs = .ok u := by
  rw [run_append]
  cases h : run step s es <;> simp [Except.bind]

theorem run_snoc_ok {s u : σ} {es : List ε} {e : ε} :
    run step s (es ++ [e]) = .ok u ↔ ∃ t, run step s es = .ok t ∧ step t e = .ok u := by
  rw [run_append_ok]
  constructor
  · rintro ⟨t, ht, hu⟩
    obtain ⟨v, hv, hvu⟩ := run_cons_ok.1 hu
    rw [run_nil] at hvu
    cases hvu
    exact ⟨t, ht, hv⟩
  · rintro ⟨t, ht, hu⟩
    exact ⟨t, ht, run_cons_ok.2 ⟨u, hu, rfl⟩⟩

theorem run_snoc {s t : σ} {es : List ε} {e : ε} (h : run step s es = .ok t) :
    run step s (es ++ [e]) = step t e := by
  rw [run_append, h]
  show run step t [e] = step t e
  unfold run
  cases step t e <;> rfl

/-- **The run rule.** A property of the events so far and the state, true at the
start and kept by every step that succeeds, holds after every run that succeeds. -/
theorem run_hist {I : List ε → σ → Prop} {s : σ} (h0 : I [] s)
    (hstep : ∀ pre t e u, run step s pre = .ok t → I pre t → step t e = .ok u → I (pre ++ [e]) u) :
    ∀ {es t}, run step s es = .ok t → I es t := by
  intro es
  induction es using List.reverseRecOn with
  | nil => intro t h; rw [run_nil] at h; cases h; exact h0
  | append_singleton es e ih =>
    intro u h
    obtain ⟨t, ht, hu⟩ := run_snoc_ok.1 h
    exact hstep es t e u ht (ih ht) hu

/-- The run rule for a property of the state alone. -/
theorem run_inv {I : σ → Prop} (hstep : ∀ t e u, I t → step t e = .ok u → I u) {s t : σ}
    {es : List ε} (h0 : I s) (h : run step s es = .ok t) : I t :=
  run_hist (I := fun _ t => I t) h0 (fun _ t e u _ hI hu => hstep t e u hI hu) h

/-- Every event of the run satisfies `G` in the state it meets. -/
def Along (step : σ → ε → Except φ σ) (G : List ε → σ → ε → Prop) (s : σ) (es : List ε) : Prop :=
  ∀ pre e, pre ++ [e] <+: es → ∀ t, run step s pre = .ok t → G pre t e

theorem along_nil {G : List ε → σ → ε → Prop} {s : σ} : Along step G s [] := by
  intro pre e h
  simp at h

theorem along_cons {G : List ε → σ → ε → Prop} {s : σ} {e : ε} {es : List ε} :
    Along step G s (e :: es) ↔
      G [] s e ∧ ∀ t, step s e = .ok t → Along step (fun pre => G (e :: pre)) t es := by
  constructor
  · intro h
    refine ⟨h [] e (by simp) s rfl, fun t ht pre d hpre u hu => ?_⟩
    exact h (e :: pre) d (by simpa using hpre) u (run_cons_ok.2 ⟨t, ht, hu⟩)
  · rintro ⟨h0, h1⟩ pre d hpre u hu
    cases pre with
    | nil =>
      simp only [List.nil_append, List.cons_prefix_cons, List.nil_prefix, and_true] at hpre
      rw [run_nil] at hu
      cases hu
      exact hpre ▸ h0
    | cons c pre =>
      obtain ⟨rfl, hpre'⟩ := List.cons_prefix_cons.1 hpre
      obtain ⟨t, ht, hu⟩ := run_cons_ok.1 hu
      exact h1 t ht pre d hpre' u hu

theorem along_cons_ok {G : List ε → σ → ε → Prop} {s t : σ} {e : ε} {es : List ε} (h : step s e = .ok t) :
    Along step G s (e :: es) ↔ G [] s e ∧ Along step (fun pre => G (e :: pre)) t es := by
  rw [along_cons]
  refine and_congr_right fun _ => ⟨fun hall => hall t h, fun hall u hu => ?_⟩
  rw [h] at hu
  cases hu
  exact hall

/-- A test along a run; what comes behind a failure is not tested. -/
def check (step : σ → ε → Except φ σ) (c : σ → ε → Bool) : σ → List ε → Bool
  | _, [] => true
  | s, e :: es =>
    c s e && match step s e with
      | .ok t => check step c t es
      | .error _ => true

/-- A run that passes a test satisfies what the test implies. -/
theorem along_of_check {G : List ε → σ → ε → Prop} {c : σ → ε → Bool} {s : σ} {es : List ε}
    (h : check step c s es = true) (hG : ∀ pre s e, c s e = true → G pre s e) : Along step G s es := by
  induction es generalizing s G with
  | nil => exact along_nil
  | cons e es ih =>
    unfold check at h
    rw [Bool.and_eq_true] at h
    refine along_cons.2 ⟨hG [] s e h.1, fun t ht => ?_⟩
    rw [ht] at h
    exact ih h.2 fun pre => hG (e :: pre)

/-- No event of the run fails, and `P` holds after every prefix of it. -/
def Always (step : σ → ε → Except φ σ) (P : List ε → σ → Prop) (s : σ) (es : List ε) : Prop :=
  ∀ pre, pre <+: es → ∃ t, run step s pre = .ok t ∧ P pre t

/-- `P` holds after every prefix of the run that does not fail. -/
def Throughout (step : σ → ε → Except φ σ) (P : List ε → σ → Prop) (s : σ) (es : List ε) : Prop :=
  ∀ pre, pre <+: es → ∀ t, run step s pre = .ok t → P pre t

/-- A property that the events of a run keep, as long as they meet `C`, holds
throughout it. -/
theorem throughout_of_along {P : List ε → σ → Prop} {C : List ε → σ → ε → Prop} {s : σ} {es : List ε}
    (h0 : P [] s) (hstep : ∀ pre e t u, P pre t → C pre t e → step t e = .ok u → P (pre ++ [e]) u)
    (hC : Along step C s es) : Throughout step P s es := by
  intro pre
  induction pre using List.reverseRecOn with
  | nil => intro _ t ht; rw [run_nil] at ht; cases ht; exact h0
  | append_singleton pre e ih =>
    intro hpre u hu
    obtain ⟨t, ht, htu⟩ := run_snoc_ok.1 hu
    have hP : P pre t := ih ((List.prefix_append pre [e]).trans hpre) t ht
    exact hstep pre e t u hP (hC pre e hpre t ht) htu

theorem run_snoc_error {s : σ} {es : List ε} {e : ε} {f : φ} (h : run step s es = .error f) :
    run step s (es ++ [e]) = .error f := by
  rw [run_append, h]
  rfl

/-- `P` holds after every prefix of the run that does not fail, and every failure is one
that `A` tolerates. -/
def AlwaysUpTo (A : φ → Prop) (step : σ → ε → Except φ σ) (P : List ε → σ → Prop) (s : σ)
    (es : List ε) : Prop :=
  ∀ pre, pre <+: es → (∃ t, run step s pre = .ok t ∧ P pre t) ∨ ∃ f, run step s pre = .error f ∧ A f

theorem AlwaysUpTo.imp {A : φ → Prop} {P Q : List ε → σ → Prop} {s : σ} {es : List ε}
    (h : AlwaysUpTo A step P s es) (hPQ : ∀ pre t, P pre t → Q pre t) : AlwaysUpTo A step Q s es := by
  intro pre hpre
  rcases h pre hpre with ⟨t, ht, hP⟩ | hf
  · exact Or.inl ⟨t, ht, hPQ pre t hP⟩
  · exact Or.inr hf

/-- An invariant that each event keeps, or fails in a way that `A` tolerates. -/
theorem alwaysUpTo_of_step {A : φ → Prop} {P : List ε → σ → Prop} {s : σ} {es : List ε} (h0 : P [] s)
    (hstep : ∀ pre e, pre ++ [e] <+: es → ∀ t, run step s pre = .ok t → P pre t →
      (∃ u, step t e = .ok u ∧ P (pre ++ [e]) u) ∨ ∃ f, step t e = .error f ∧ A f) :
    AlwaysUpTo A step P s es := by
  intro pre
  induction pre using List.reverseRecOn with
  | nil => exact fun _ => Or.inl ⟨s, rfl, h0⟩
  | append_singleton pre e ih =>
    intro hpre
    rcases ih ((List.prefix_append pre [e]).trans hpre) with ⟨t, ht, hP⟩ | ⟨f, hf, hA⟩
    · rw [run_snoc ht]
      exact hstep pre e hpre t ht hP
    · exact Or.inr ⟨f, run_snoc_error hf, hA⟩

/-- **A condition on the single events is exact for the whole run.** `Q` is an invariant
that implies `P`. If an event that meets `C` keeps `Q` or fails in a tolerated way, and an
event that does not meet `C` fails otherwise or breaks `P`, then `P` holds throughout a
run exactly when all of its events meet `C`. -/
theorem alwaysUpTo_iff {A : φ → Prop} {P Q : List ε → σ → Prop} {C : List ε → σ → ε → Prop} {s : σ}
    {es : List ε} (hQP : ∀ pre t, Q pre t → P pre t) (h0 : Q [] s)
    (hgood : ∀ pre e, pre ++ [e] <+: es → ∀ t, run step s pre = .ok t → Q pre t → C pre t e →
      (∃ u, step t e = .ok u ∧ Q (pre ++ [e]) u) ∨ ∃ f, step t e = .error f ∧ A f)
    (hbad : ∀ pre e, pre ++ [e] <+: es → ∀ t, run step s pre = .ok t → Q pre t →
      (∃ u, step t e = .ok u ∧ P (pre ++ [e]) u) ∨ (∃ f, step t e = .error f ∧ A f) → C pre t e) :
    AlwaysUpTo A step P s es ↔ Along step C s es := by
  constructor
  · intro hall
    -- a step that went well met `C`, so the invariant goes along with the run
    have hnext : ∀ pre e, pre ++ [e] <+: es → ∀ t, run step s pre = .ok t → Q pre t → C pre t e := by
      intro pre e hpre t ht hQ
      refine hbad pre e hpre t ht hQ ?_
      rw [← run_snoc ht]
      exact hall _ hpre
    have hQ : ∀ pre, pre <+: es → ∀ t, run step s pre = .ok t → Q pre t := by
      intro pre
      induction pre using List.reverseRecOn with
      | nil => intro _ t ht; rw [run_nil] at ht; cases ht; exact h0
      | append_singleton pre e ih =>
        intro hpre u hu
        obtain ⟨t, ht, htu⟩ := run_snoc_ok.1 hu
        have hQt := ih ((List.prefix_append pre [e]).trans hpre) t ht
        rcases hgood pre e hpre t ht hQt (hnext pre e hpre t ht hQt) with ⟨v, hv, hQv⟩ | ⟨f, hf, -⟩
        · rw [htu] at hv; cases hv; exact hQv
        · rw [htu] at hf; cases hf
    exact fun pre e hpre t ht => hnext pre e hpre t ht (hQ pre ((List.prefix_append pre [e]).trans hpre) t ht)
  · intro hC
    have hrun : AlwaysUpTo A step Q s es :=
      alwaysUpTo_of_step h0 fun pre e hpre t ht hQ => hgood pre e hpre t ht hQ (hC pre e hpre t ht)
    exact hrun.imp hQP

theorem always_iff_upTo {P : List ε → σ → Prop} {s : σ} {es : List ε} :
    Always step P s es ↔ AlwaysUpTo (fun _ => False) step P s es := by
  constructor
  · exact fun h pre hpre => Or.inl (h pre hpre)
  · intro h pre hpre
    rcases h pre hpre with hok | ⟨f, -, hf⟩
    · exact hok
    · exact hf.elim

/-- Where every failure is tolerated. -/
theorem throughout_iff_upTo {P : List ε → σ → Prop} {s : σ} {es : List ε} :
    Throughout step P s es ↔ AlwaysUpTo (fun _ => True) step P s es := by
  constructor
  · intro h pre hpre
    cases hrun : run step s pre with
    | ok t => exact Or.inl ⟨t, rfl, h pre hpre t hrun⟩
    | error f => exact Or.inr ⟨f, rfl, trivial⟩
  · intro h pre hpre t ht
    rcases h pre hpre with ⟨u, hu, hP⟩ | ⟨f, hf, -⟩
    · rw [ht] at hu
      cases hu
      exact hP
    · rw [ht] at hf
      cases hf

theorem Always.imp {P Q : List ε → σ → Prop} {s : σ} {es : List ε} (h : Always step P s es)
    (hPQ : ∀ pre t, P pre t → Q pre t) : Always step Q s es :=
  always_iff_upTo.2 ((always_iff_upTo.1 h).imp hPQ)

/-- An invariant that each event keeps without failing. -/
theorem always_of_step {P : List ε → σ → Prop} {s : σ} {es : List ε} (h0 : P [] s)
    (hstep : ∀ pre e, pre ++ [e] <+: es → ∀ t, run step s pre = .ok t → P pre t →
      ∃ u, step t e = .ok u ∧ P (pre ++ [e]) u) : Always step P s es :=
  always_iff_upTo.2 (alwaysUpTo_of_step h0 fun pre e hpre t ht hP => Or.inl (hstep pre e hpre t ht hP))

/-- The exact condition where no failure is tolerated. -/
theorem always_iff {P Q : List ε → σ → Prop} {C : List ε → σ → ε → Prop} {s : σ} {es : List ε}
    (hQP : ∀ pre t, Q pre t → P pre t) (h0 : Q [] s)
    (hgood : ∀ pre e, pre ++ [e] <+: es → ∀ t, run step s pre = .ok t → Q pre t → C pre t e →
      ∃ u, step t e = .ok u ∧ Q (pre ++ [e]) u)
    (hbad : ∀ pre e, pre ++ [e] <+: es → ∀ t u, P pre t → step t e = .ok u → P (pre ++ [e]) u →
      C pre t e) :
    Always step P s es ↔ Along step C s es := by
  rw [always_iff_upTo]
  refine alwaysUpTo_iff hQP h0 ?_ ?_
  · exact fun pre e hpre t ht hQ hC => Or.inl (hgood pre e hpre t ht hQ hC)
  · intro pre e hpre t ht hQ h
    rcases h with ⟨u, hu, hP⟩ | ⟨f, -, hf⟩
    · exact hbad pre e hpre t u (hQP pre t hQ) hu hP
    · exact hf.elim

/-- Two side conditions that mean the same where an invariant holds, and that keep it, hold
along the same runs. -/
theorem along_congr {I : List ε → σ → Prop} {G C : List ε → σ → ε → Prop} {s : σ} {es : List ε}
    (h0 : I [] s) (hGC : ∀ pre t e, I pre t → (G pre t e ↔ C pre t e))
    (hstep : ∀ pre t e u, I pre t → C pre t e → step t e = .ok u → I (pre ++ [e]) u) :
    Along step G s es ↔ Along step C s es := by
  constructor
  · intro hG
    have hI : Throughout step I s es :=
      throughout_of_along h0 (fun pre e t u hI hg hu => hstep pre t e u hI ((hGC pre t e hI).1 hg) hu) hG
    intro pre e hpre t ht
    have hIt := hI pre ((List.prefix_append pre [e]).trans hpre) t ht
    exact (hGC pre t e hIt).1 (hG pre e hpre t ht)
  · intro hC
    have hI : Throughout step I s es :=
      throughout_of_along h0 (fun pre e t u hI hc hu => hstep pre t e u hI hc hu) hC
    intro pre e hpre t ht
    have hIt := hI pre ((List.prefix_append pre [e]).trans hpre) t ht
    exact (hGC pre t e hIt).2 (hC pre e hpre t ht)

/-! ## Progress -/

/-- **The progress rule.** While a measure is not zero, each event lowers it by `lower` and
raises it by at most `gain`. When the events together lower it by as much as there was and
what came on top, then it was zero at some point. -/
theorem zero_of_progress {I : σ → Prop} {μ : σ → ℕ} {gain lower : ε → ℕ} {s u : σ} {es : List ε}
    (hstep : ∀ t e v, e ∈ es → I t → step t e = .ok v → I v ∧ (μ t ≠ 0 → μ v + lower e ≤ μ t + gain e))
    (h0 : I s) (h : run step s es = .ok u) (hsum : μ s + (es.map gain).sum ≤ (es.map lower).sum) :
    ∃ pre t, pre <+: es ∧ run step s pre = .ok t ∧ μ t = 0 := by
  induction es generalizing s with
  | nil =>
    simp only [List.map_nil, List.sum_nil] at hsum
    exact ⟨[], s, List.nil_prefix, rfl, by omega⟩
  | cons e es ih =>
    by_cases hzero : μ s = 0
    · exact ⟨[], s, List.nil_prefix, rfl, hzero⟩
    · obtain ⟨v, hv, hrest⟩ := run_cons_ok.1 h
      obtain ⟨hI, hle⟩ := hstep s e v List.mem_cons_self h0 hv
      have hle := hle hzero
      simp only [List.map_cons, List.sum_cons] at hsum
      obtain ⟨pre, t, hpre, ht, hμ⟩ :=
        ih (fun t d v hd => hstep t d v (List.mem_cons_of_mem e hd)) hI hrest (by omega)
      exact ⟨e :: pre, t, List.cons_prefix_cons.2 ⟨rfl, hpre⟩, run_cons_ok.2 ⟨v, hv, ht⟩, hμ⟩

/-! ## Earlier moments -/

section Moments

variable {α : Type*} {f : σ → List α} {s t u : σ}

/-- What only grows in a step, only grows in a run. -/
theorem run_grows (hstep : ∀ t e v, step t e = .ok v → f v = f t ∨ ∃ a, f v = f t ++ [a]) {es : List ε}
    (h : run step s es = .ok u) : f s <+: f u := by
  refine run_inv (I := fun v => f s <+: f v) ?_ (List.prefix_refl _) h
  intro v e w hv hw
  rcases hstep v e w hw with heq | ⟨a, heq⟩
  · rw [heq]
    exact hv
  · rw [heq]
    exact hv.trans (List.prefix_append _ _)

/-- **Every prefix was there.** A list that starts empty and gets one element in a step at most has
been every prefix of what it is. -/
theorem exists_moment (h0 : f s = []) (hstep : ∀ t e v, step t e = .ok v → f v = f t ∨ ∃ a, f v = f t ++ [a])
    {es : List ε} (h : run step s es = .ok u) {l : List α} (hl : l <+: f u) :
    ∃ pre v, pre <+: es ∧ run step s pre = .ok v ∧ f v = l := by
  induction es using List.reverseRecOn generalizing u with
  | nil =>
    obtain rfl := Except.ok.inj h
    rw [h0] at hl
    exact ⟨[], s, List.prefix_refl _, rfl, by rw [h0, List.prefix_nil.1 hl]⟩
  | append_singleton es e ih =>
    obtain ⟨t, ht, hu⟩ := run_snoc_ok.1 h
    have hearlier : l <+: f t → ∃ pre v, pre <+: es ++ [e] ∧ run step s pre = .ok v ∧ f v = l := by
      intro hlt
      obtain ⟨pre, v, hpre, hv, hl⟩ := ih ht hlt
      exact ⟨pre, v, hpre.trans (List.prefix_append _ _), hv, hl⟩
    rcases hstep t e u hu with heq | ⟨a, heq⟩
    · exact hearlier (heq ▸ hl)
    · rw [heq] at hl
      rcases List.prefix_concat_iff.1 hl with hl | hl
      · exact ⟨es ++ [e], u, List.prefix_refl _, h, by rw [heq, hl]⟩
      · exact hearlier hl

/-- **Two moments in their order**: the first one before `t`. -/
theorem exists_moments (h0 : f s = []) (hstep : ∀ t e v, step t e = .ok v → f v = f t ∨ ∃ a, f v = f t ++ [a])
    {es fs : List ε} (hs : run step s es = .ok t) (ht : run step t fs = .ok u) {l l' : List α}
    (hl : l <+: f t) (hl' : l' <+: f u) (hll : l <+: l') :
    ∃ m n v w, m <+: es ∧ m <+: n ∧ n <+: es ++ fs ∧ run step s m = .ok v ∧ run step s n = .ok w ∧
      f v = l ∧ f w = l' := by
  obtain ⟨m, v, hm, hv, hfv⟩ := exists_moment h0 hstep hs hl
  obtain ⟨n, w, hn, hw, hfw⟩ := exists_moment h0 hstep (run_append_ok.2 ⟨t, hs, ht⟩) hl'
  rcases List.prefix_or_prefix_of_prefix (hm.trans (List.prefix_append es fs)) hn with hmn | hnm
  · exact ⟨m, n, v, w, hm, hmn, hn, hv, hw, hfv, hfw⟩
  · -- nothing came in between
    obtain ⟨r, rfl⟩ := hnm
    obtain ⟨x, hx, hxv⟩ := run_append_ok.1 hv
    rw [hw] at hx
    obtain rfl := Except.ok.inj hx
    have hback : l' <+: l := by
      rw [← hfv, ← hfw]
      exact run_grows hstep hxv
    have heq : l = l' := hll.eq_of_length_le hback.length_le
    exact ⟨n, n, w, w, (List.prefix_append _ _).trans hm, List.prefix_refl _, hn, hw, hw, hfw.trans heq.symm, hfw⟩

end Moments

end Runs
