import LbRpc.Base.Runs

/-!
# Simulation

Two machines of `Runs` over the same events, one closer to the code than the other.

* `Matches`: two outcomes of a step or of a run that go together.
* `Simulates.run`: machines that match step by step match over whole runs.
-/

namespace Runs

variable {σ τ ε φ ψ : Type*} {stepC : σ → ε → Except φ σ} {stepA : τ → ε → Except ψ τ}

/-- Both outcomes are states that are related, or failures that are. -/
inductive Matches (rel : σ → τ → Prop) (fail : φ → ψ → Prop) : Except φ σ → Except ψ τ → Prop
  | ok {s t} : rel s t → Matches rel fail (.ok s) (.ok t)
  | error {f g} : fail f g → Matches rel fail (.error f) (.error g)

variable {rel : σ → τ → Prop} {fail : φ → ψ → Prop} {G : τ → ε → Prop} {s : σ} {t : τ}

/-- **The machines match step by step**, as long as the events meet `G` in the abstract
state. -/
def Simulates (stepC : σ → ε → Except φ σ) (stepA : τ → ε → Except ψ τ) (rel : σ → τ → Prop)
    (fail : φ → ψ → Prop) (G : τ → ε → Prop) : Prop :=
  ∀ s t e, rel s t → G t e → Matches rel fail (stepC s e) (stepA t e)

/-- **They match over whole runs.** -/
theorem Simulates.run (h : Simulates stepC stepA rel fail G) {es : List ε} (h0 : rel s t)
    (hG : Along stepA (fun _ t e => G t e) t es) :
    Matches rel fail (Runs.run stepC s es) (Runs.run stepA t es) := by
  induction es generalizing s t with
  | nil => exact .ok h0
  | cons e es ih =>
    obtain ⟨hnow, hrest⟩ := along_cons.1 hG
    have hstep := h s t e h0 hnow
    unfold Runs.run
    rcases hc : stepC s e with f | s'
    · rcases ha : stepA t e with g | t'
      · rw [hc, ha] at hstep
        cases hstep with
        | error hf => exact .error hf
      · rw [hc, ha] at hstep
        cases hstep
    · rcases ha : stepA t e with g | t'
      · rw [hc, ha] at hstep
        cases hstep
      · rw [hc, ha] at hstep
        cases hstep with
        | ok hrel => exact ih hrel (hrest t' ha)

end Runs
