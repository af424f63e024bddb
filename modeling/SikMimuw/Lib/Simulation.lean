import SikMimuw.Lib.Run

/-!
# Forward simulations

`R` simulates if every step of the one system from a state related to `t` is matched by a run of
the other from `t`. Whole runs are matched then (`Simulation.run`), so an invariant of the
abstract system is one of the concrete system (`Simulation.inv`).
-/

namespace Lts

variable {σ τ ε δ : Type*} {step : σ → ε → σ → Prop} {step' : τ → δ → τ → Prop} {R : σ → τ → Prop}
  {s₀ s : σ} {t₀ : τ} {es : List ε}

/-- **A forward simulation**: a step is matched by a run, which may be empty. -/
def Simulation (step : σ → ε → σ → Prop) (step' : τ → δ → τ → Prop) (R : σ → τ → Prop) : Prop :=
  ∀ s e s' t, R s t → step s e s' → ∃ ds t', Run step' t ds t' ∧ R s' t'

/-- The step is not seen. -/
theorem Simulation.stutter {t : τ} (h : R s t) : ∃ ds t', Run step' t ds t' ∧ R s t' :=
  ⟨[], t, Run.nil, h⟩

/-- The step is one step of the other system. -/
theorem Simulation.single {t t' : τ} {d : δ} (hst : step' t d t') (h : R s t') :
    ∃ ds t', Run step' t ds t' ∧ R s t' :=
  ⟨[d], t', Run.single hst, h⟩

/-- **Runs are matched.** -/
theorem Simulation.run (h : Simulation step step' R) (hr : Run step s₀ es s) (h0 : R s₀ t₀) :
    ∃ ds t, Run step' t₀ ds t ∧ R s t := by
  induction hr with
  | nil => exact Simulation.stutter h0
  | snoc _ hst ih =>
    obtain ⟨ds, t, hrun, hR⟩ := ih
    obtain ⟨ds', t', hrun', hR'⟩ := h _ _ _ _ hR hst
    exact ⟨ds ++ ds', t', hrun.append hrun', hR'⟩

/-- **An invariant of the abstract system** is one of the concrete system. -/
theorem Simulation.inv (h : Simulation step step' R) (hr : Run step s₀ es s) (h0 : R s₀ t₀)
    {I : τ → Prop} (hI : I t₀) (hstep : ∀ t d t', I t → step' t d t' → I t') : ∃ t, R s t ∧ I t := by
  obtain ⟨ds, t, hrun, hR⟩ := h.run hr h0
  exact ⟨t, hR, hrun.inv hI hstep⟩

end Lts
