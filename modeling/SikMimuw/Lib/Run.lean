import Mathlib.Logic.Basic
import Mathlib.Tactic.Common

/-!
# Runs of labelled transition systems

A system is a relation `step s e t` (event `e` leads from `s` to `t`). `Run step s es t`
is a run over the list of events `es`. It grows at its end, so an invariant may speak
of the history.

* `Run.inv`: what holds first and is kept by every step holds along every run.
* `Guarded`: the steps whose source state and event meet a condition.
* `exec`: runs of a step function, with `exec_run` turning a computed run into a `Run` and
  `exec_guarded` into one of guarded steps.
* `Always P h`: every entry of the history `h` stands in relation `P` to the entries
  before it. `always_snoc` is its induction step.
-/

namespace Lts

variable {σ ε α : Type*} {step : σ → ε → σ → Prop} {s₀ s t : σ} {es : List ε}

/-- **A run** from `s₀` over a list of events. -/
inductive Run (step : σ → ε → σ → Prop) (s₀ : σ) : List ε → σ → Prop
  | nil : Run step s₀ [] s₀
  | snoc {es : List ε} {s : σ} {e : ε} {t : σ} :
      Run step s₀ es s → step s e t → Run step s₀ (es ++ [e]) t

/-- **The invariant rule.** -/
theorem Run.inv {I : σ → Prop} (h : Run step s₀ es s) (h0 : I s₀)
    (hstep : ∀ s e t, I s → step s e t → I t) : I s := by
  induction h with
  | nil => exact h0
  | snoc _ hst ih => exact hstep _ _ _ ih hst

theorem Run.single {e : ε} (h : step s e t) : Run step s [e] t := by
  simpa using Run.snoc Run.nil h

theorem Run.append {es' : List ε} (h : Run step s₀ es s) (h' : Run step s es' t) :
    Run step s₀ (es ++ es') t := by
  induction h' with
  | nil => simpa using h
  | snoc _ hst ih => rw [← List.append_assoc]; exact ih.snoc hst

/-- A run of a smaller relation. -/
theorem Run.mono {step' : σ → ε → σ → Prop} (h : Run step s₀ es s)
    (hsub : ∀ s e t, step s e t → step' s e t) : Run step' s₀ es s := by
  induction h with
  | nil => exact Run.nil
  | snoc _ hst ih => exact ih.snoc (hsub _ _ _ hst)

/-- The steps whose source state and event meet the condition `G`. -/
def Guarded (step : σ → ε → σ → Prop) (G : σ → ε → Prop) : σ → ε → σ → Prop :=
  fun s e t => step s e t ∧ G s e

/-- The relation of a step function. -/
def Fires (f : σ → ε → Option σ) : σ → ε → σ → Prop := fun s e t => f s e = some t

/-- The state after a list of events, if each of them is enabled in its turn. -/
def exec (f : σ → ε → Option σ) : σ → List ε → Option σ
  | s, [] => some s
  | s, e :: es => (f s e).bind fun t => exec f t es

theorem exec_run {f : σ → ε → Option σ} : ∀ {es : List ε} {s t : σ},
    exec f s es = some t → Run (Fires f) s es t := by
  intro es
  induction es with
  | nil => intro s t h; simp only [exec, Option.some.injEq] at h; subst h; exact Run.nil
  | cons e es ih =>
    intro s t h
    simp only [exec, Option.bind_eq_some_iff] at h
    obtain ⟨u, hu, ht⟩ := h
    have h1 : Run (Fires f) s [e] u := Run.single hu
    exact h1.append (ih ht)

/-- The step function that fires only where `G` holds. -/
def guarded (f : σ → ε → Option σ) (G : σ → ε → Prop) [∀ s e, Decidable (G s e)] :
    σ → ε → Option σ := fun s e => if G s e then f s e else none

theorem exec_guarded {f : σ → ε → Option σ} {G : σ → ε → Prop} [∀ s e, Decidable (G s e)]
    (h : exec (guarded f G) s es = some t) : Run (Guarded (Fires f) G) s es t := by
  refine (exec_run h).mono fun s e t hst => ?_
  unfold Fires guarded at hst
  split at hst
  · exact ⟨hst, ‹_›⟩
  · cases hst

/-- Where an entry of a history that has grown by one stands. -/
theorem snoc_eq_append_cons {l pre post : List α} {x o : α} :
    l ++ [x] = pre ++ o :: post ↔
      post = [] ∧ l = pre ∧ x = o ∨ ∃ post', post = post' ++ [x] ∧ l = pre ++ o :: post' := by
  constructor
  · intro h
    rcases List.eq_nil_or_concat post with rfl | ⟨post', y, rfl⟩
    · obtain ⟨rfl, hx⟩ := List.append_inj' h rfl
      simp only [List.cons.injEq, and_true] at hx
      exact Or.inl ⟨rfl, rfl, hx⟩
    · rw [List.concat_eq_append, ← List.cons_append, ← List.append_assoc] at h
      obtain ⟨hl, hx⟩ := List.append_inj' h rfl
      simp only [List.cons.injEq, and_true] at hx
      subst hx
      exact Or.inr ⟨post', List.concat_eq_append, hl⟩
  · rintro (⟨rfl, rfl, rfl⟩ | ⟨post', rfl, rfl⟩)
    · rfl
    · simp

/-- Every entry of the history stands in relation `P` to the entries before it. -/
def Always (P : List α → α → Prop) (h : List α) : Prop :=
  ∀ pre o post, h = pre ++ o :: post → P pre o

variable {P : List α → α → Prop} {h : List α}

theorem always_nil : Always P [] := by
  intro pre o post hs
  simp at hs

/-- **One more entry.** -/
theorem always_snoc {o : α} (hh : Always P h) (ho : P h o) : Always P (h ++ [o]) := by
  intro pre o' post hs
  rcases snoc_eq_append_cons.1 hs with ⟨-, rfl, rfl⟩ | ⟨post', -, hl⟩
  · exact ho
  · exact hh pre o' post' hl

/-- The beginnings of a history. -/
theorem Always.of_append {h' : List α} (hh : Always P (h ++ h')) : Always P h := by
  rintro pre o post rfl
  exact hh pre o (post ++ h') (by rw [List.append_assoc, List.cons_append])

theorem always_snoc_iff {o : α} : Always P (h ++ [o]) ↔ Always P h ∧ P h o :=
  ⟨fun hh => ⟨hh.of_append, hh h o [] rfl⟩, fun hh => always_snoc hh.1 hh.2⟩

end Lts
