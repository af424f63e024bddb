import Mathlib.Tactic.Common

/-!
# Mutexes

A mutex is the thread that holds it, if any. `Excl holder inside` says that the holder is the
only thread inside a critical section. It is kept by a thread that takes the free mutex
and enters, by one that is inside, frees the mutex and leaves, and by one that does neither
(`Excl.step`).
-/

namespace Mutex

variable {τ : Type*} {holder holder' : Option τ} {inside inside' : τ → Prop} {t u : τ}

/-- The thread inside a critical section is the holder of its mutex. -/
def Excl (holder : Option τ) (inside : τ → Prop) : Prop := ∀ t, inside t ↔ holder = some t

/-- **At most one thread is inside.** -/
theorem Excl.unique (h : Excl holder inside) (ht : inside t) (hu : inside u) : t = u := by
  have h1 := (h t).1 ht
  have h2 := (h u).1 hu
  rw [h1, Option.some.injEq] at h2
  exact h2

/-- A mutex is free if nobody is inside. -/
theorem Excl.free (h : Excl holder inside) (hout : ∀ t, ¬ inside t) : holder = none := by
  cases hh : holder with
  | none => rfl
  | some t => exact absurd ((h t).2 hh) (hout t)

/-- One step of thread `t`, as the mutex sees it: it locks and enters, it leaves and unlocks, or
it does neither. -/
inductive Moves (holder : Option τ) (t : τ) (was now : Prop) : Option τ → Prop
  | lock (hfree : holder = none) (hnow : now) : Moves holder t was now (some t)
  | unlock (hwas : was) (hnow : ¬ now) : Moves holder t was now none
  | keep (hsame : now ↔ was) : Moves holder t was now holder

/-- **A step of one thread** keeps exclusion, if it moves as it should and the others stay. -/
theorem Excl.step (h : Excl holder inside) (hm : Moves holder t (inside t) (inside' t) holder')
    (hother : ∀ u, u ≠ t → (inside' u ↔ inside u)) : Excl holder' inside' := by
  intro u
  by_cases hu : u = t
  · subst hu
    cases hm with
    | lock _ hnow => simp [hnow]
    | unlock _ hnow => simp [hnow]
    | keep hsame => rw [hsame, h u]
  · rw [hother u hu]
    cases hm with
    | lock hfree _ =>
      rw [h u, hfree]
      simp [Ne.symm hu]
    | unlock hwas _ =>
      rw [h u, (h t).1 hwas]
      simp [Ne.symm hu]
    | keep _ => exact h u

end Mutex
