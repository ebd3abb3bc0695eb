import Mathlib.Algebra.Group.Defs

/-! # Labelled runs

A run of a step relation adds up the labels of its steps. What each step preserves, and
what each step adds to a measure, carries over to runs.
-/

universe u v

variable {σ : Type u} {δ : Type v} [AddMonoid δ]

/-- A run from one state to another, with the sum of its labels. -/
inductive Run (step : σ → δ → σ → Prop) : σ → δ → σ → Prop
  | refl (s : σ) : Run step s 0 s
  | tail {s t u : σ} {d e : δ} : Run step s d t → step t e u → Run step s (d + e) u

namespace Run

variable {step : σ → δ → σ → Prop} {s t u : σ} {d e : δ}

theorem single (h : step s d t) : Run step s d t := by
  have hrun := (Run.refl s).tail h
  rwa [zero_add] at hrun

theorem trans (h : Run step s d t) (h' : Run step t e u) : Run step s (d + e) u := by
  induction h' with
  | refl => rwa [add_zero]
  | tail _ hstep ih =>
      rw [← add_assoc]
      exact ih.tail hstep

/-- The label of a run, in another form. -/
theorem relabel (h : Run step s d t) (hlabel : d = e) : Run step s e t := hlabel ▸ h

/-- What each step preserves, a run preserves. -/
theorem invariant (holds : σ → Prop) (hstep : ∀ s d t, holds s → step s d t → holds t)
    (h : Run step s d t) (hs : holds s) : holds t := by
  induction h with
  | refl => exact hs
  | tail _ hlast ih => exact hstep _ _ _ ih hlast

/-- A measure that each step changes by its label changes by the label of the run. -/
theorem measure (μ : σ → δ) (holds : σ → Prop)
    (hholds : ∀ s d t, holds s → step s d t → holds t)
    (hstep : ∀ s d t, holds s → step s d t → μ t = μ s + d)
    (h : Run step s d t) (hs : holds s) : μ t = μ s + d := by
  induction h with
  | refl => rw [add_zero]
  | tail hrun hlast ih =>
      rw [hstep _ _ _ (hrun.invariant holds hholds hs) hlast, ih, add_assoc]

end Run
