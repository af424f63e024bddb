import Mathlib.Algebra.BigOperators.Group.List.Basic
import Mathlib.Algebra.Ring.Nat
import SikMimuw.Lib.Run

/-!
# Runs that end

If every step lowers a measure, on the states of an invariant, then a run is no longer than the
measure of its first state (`Descends.length_le`), and it can be continued to a state in which no
step is left (`Descends.ends`).
-/

namespace Lts

variable {σ ε : Type*} {step : σ → ε → σ → Prop} {I : σ → Prop} {m : σ → ℕ} {s₀ s : σ} {es : List ε}

/-- **Every step lowers the measure** on the states of `I`, and keeps `I`. -/
structure Descends (step : σ → ε → σ → Prop) (I : σ → Prop) (m : σ → ℕ) : Prop where
  keeps : ∀ s e t, I s → step s e t → I t
  lowers : ∀ s e t, I s → step s e t → m t < m s

theorem Descends.inv (hd : Descends step I m) (h0 : I s₀) (hr : Run step s₀ es s) : I s :=
  hr.inv h0 hd.keeps

/-- **The length of a run** is bounded by the measure. -/
theorem Descends.length_le (hd : Descends step I m) (h0 : I s₀) (hr : Run step s₀ es s) :
    es.length + m s ≤ m s₀ := by
  induction hr with
  | nil => simp
  | snoc hr hst ih =>
    have hlt := hd.lowers _ _ _ (hd.inv h0 hr) hst
    rw [List.length_append, List.length_singleton]
    omega

/-- **Some run comes to its end.** -/
theorem Descends.ends (hd : Descends step I m) {n : ℕ} : ∀ {s : σ}, I s → m s = n →
    ∃ es t, Run step s es t ∧ ∀ e u, ¬ step t e u := by
  induction n using Nat.strongRecOn with
  | _ n ih =>
    intro s hs hn
    by_cases hend : ∀ e u, ¬ step s e u
    · exact ⟨[], s, Run.nil, hend⟩
    · push Not at hend
      obtain ⟨e, u, hu⟩ := hend
      have hlt := hd.lowers s e u hs hu
      obtain ⟨es, t, hrun, ht⟩ := ih (m u) (by omega) (hd.keeps s e u hs hu) rfl
      exact ⟨e :: es, t, (Run.single hu).append hrun, ht⟩

/-- **One summand of a sum** is another. -/
theorem sum_map_set {α : Type*} (f : α → ℕ) {a b : α} : ∀ {l : List α} {i : ℕ}, l[i]? = some a →
    ((l.set i b).map f).sum + f a = (l.map f).sum + f b := by
  intro l
  induction l with
  | nil =>
    intro i h
    simp at h
  | cons x l ih =>
    intro i h
    cases i with
    | zero =>
      obtain rfl : x = a := by simpa using h
      simp only [List.set_cons_zero, List.map_cons, List.sum_cons]
      omega
    | succ i =>
      have hrest := ih (i := i) (by simpa using h)
      simp only [List.set_cons_succ, List.map_cons, List.sum_cons]
      omega

end Lts
