import Mathlib.Data.List.Induction

-- Runs of a labelled transition system, each with the trace of its labels.
section Transition

variable {σ ε : Type}

inductive Run (step : σ → ε → σ → Prop) (first : σ) : List ε → σ → Prop where
  | nil : Run step first [] first
  | snoc {τ : List ε} {s s' : σ} {e : ε} :
      Run step first τ s → step s e s' → Run step first (τ ++ [e]) s'

namespace Run

variable {step : σ → ε → σ → Prop} {first : σ}

-- An invariant of the state and the trace that led to it.
theorem invariant {I : List ε → σ → Prop} (hfirst : I [] first)
    (hstep : ∀ {τ s e s'}, Run step first τ s → I τ s → step s e s' → I (τ ++ [e]) s')
    {τ : List ε} {s : σ} (run : Run step first τ s) : I τ s := by
  induction run with
  | nil => exact hfirst
  | snoc run hs ih => exact hstep run ih hs

-- Steps that another system can match with the same label, run against run.
theorem simulates {σ' : Type} {step' : σ' → ε → σ' → Prop} {first' : σ'} {R : σ → σ' → Prop}
    {τ : List ε} {s : σ} (run : Run step first τ s) (hfirst : R first first')
    (hstep : ∀ {s s₁ e t}, R s t → step s e s₁ → ∃ t₁, step' t e t₁ ∧ R s₁ t₁) :
    ∃ t, Run step' first' τ t ∧ R s t := by
  induction run with
  | nil => exact ⟨first', .nil, hfirst⟩
  | snoc run hs ih =>
    obtain ⟨t, run', hrel⟩ := ih
    obtain ⟨t₁, ht, hrel₁⟩ := hstep hrel hs
    exact ⟨t₁, .snoc run' ht, hrel₁⟩

theorem append {pre post : List ε} {s s' : σ} (run : Run step first pre s)
    (run' : Run step s post s') : Run step first (pre ++ post) s' := by
  induction run' with
  | nil => simpa using run
  | snoc run' hs ih =>
    rw [← List.append_assoc]
    exact ih.snoc hs

theorem of_snoc {τ : List ε} {e : ε} {s' : σ} (run : Run step first (τ ++ [e]) s') :
    ∃ s, Run step first τ s ∧ step s e s' := by
  generalize hτ : τ ++ [e] = trace at run
  cases run with
  | nil => simp at hτ
  | snoc run hs =>
    obtain ⟨rfl, rfl⟩ := List.append_inj' hτ rfl |>.imp_right List.singleton_inj.mp
    exact ⟨_, run, hs⟩

theorem of_append {pre post : List ε} {s : σ} (run : Run step first (pre ++ post) s) :
    ∃ s₁, Run step first pre s₁ := by
  induction post using List.reverseRecOn generalizing s with
  | nil => exact ⟨s, by simpa using run⟩
  | append_singleton post e ih =>
    rw [← List.append_assoc] at run
    obtain ⟨s₁, run, -⟩ := run.of_snoc
    exact ih run

-- The states around any one event of a run.
theorem at_event {pre post : List ε} {e : ε} {s : σ}
    (run : Run step first (pre ++ e :: post) s) :
    ∃ s₁ s₂, Run step first pre s₁ ∧ step s₁ e s₂ := by
  rw [show pre ++ e :: post = (pre ++ [e]) ++ post by simp] at run
  obtain ⟨s₂, run⟩ := run.of_append
  obtain ⟨s₁, run, hs⟩ := run.of_snoc
  exact ⟨s₁, s₂, run, hs⟩

end Run

end Transition
