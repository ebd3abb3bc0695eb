import Mathlib.Data.List.Basic

/-! # Rises along a history

A history is a list of values, the newest first, that began at a start value. What a weight
gains where it rises adds up to the newest weight if it never falls, and to more otherwise.
-/

namespace Blurt

namespace Rises

universe u

variable {α : Type u} {start : α}

/-- What the weight gains along a history, where it rises. -/
def rise (weight : α → Nat) (start : α) : List α → Nat
  | [] => 0
  | new :: rest => (weight new - weight (rest.headD start)) + rise weight start rest

/-- A relation between each value of a history and the one before it. -/
def Steady (holds : α → α → Prop) (start : α) : List α → Prop
  | [] => True
  | new :: rest => holds (rest.headD start) new ∧ Steady holds start rest

theorem Steady.mono {holds holds' : α → α → Prop} {history : List α}
    (hsteady : Steady holds start history) (h : ∀ old new, holds old new → holds' old new) :
    Steady holds' start history := by
  induction history with
  | nil => trivial
  | cons new rest ih => exact ⟨h _ _ hsteady.1, ih hsteady.2⟩

theorem Steady.congr {holds holds' within : α → α → Prop} {history : List α}
    (hwithin : Steady within start history)
    (h : ∀ old new, within old new → (holds old new ↔ holds' old new)) :
    Steady holds start history ↔ Steady holds' start history := by
  induction history with
  | nil => exact Iff.rfl
  | cons new rest ih => exact and_congr (h _ _ hwithin.1) (ih hwithin.2)

variable {weight : α → Nat}

/-- The newest weight is not more than what was gained. -/
theorem headD_le_rise (hstart : weight start = 0) (history : List α) :
    weight (history.headD start) ≤ rise weight start history := by
  induction history with
  | nil => exact Nat.le_of_eq hstart
  | cons new rest ih =>
      simp only [List.headD_cons, rise]
      omega

/-- The gains are the newest weight exactly when the weight never falls. -/
theorem rise_eq_iff (hstart : weight start = 0) (history : List α) :
    rise weight start history = weight (history.headD start) ↔
      Steady (fun old new => weight old ≤ weight new) start history := by
  induction history with
  | nil => exact iff_of_true hstart.symm trivial
  | cons new rest ih =>
      have hle := headD_le_rise hstart rest
      simp only [List.headD_cons, rise, Steady, ← ih]
      omega

/-- Gains that a measure bounds add up to at most the measure of the newest value. -/
theorem rise_le {measure : α → Nat} {history : List α}
    (h : Steady (fun old new => measure old ≤ measure new ∧
      weight new - weight old ≤ measure new - measure old) start history) :
    rise weight start history ≤ measure (history.headD start) := by
  induction history with
  | nil => exact Nat.zero_le _
  | cons new rest ih =>
      obtain ⟨⟨hmeasure, hgain⟩, hrest⟩ := h
      have hbefore := ih hrest
      simp only [List.headD_cons, rise]
      omega

end Rises

end Blurt
