import Mathlib.Algebra.Order.Monoid.Unbundled.MinMax
import Mathlib.Algebra.Order.Ring.Nat
import Mathlib.Algebra.Order.Ring.Unbundled.Basic
import Mathlib.Tactic.Linarith
import Mathlib.Tactic.Ring

/-! # A bucket that refills

A bucket holds at most `cap` and is full after `period`. What flows in is rounded down whenever
it is counted.
-/

namespace Blurt

namespace RefillBucket

variable {cap period held spent : Nat}

/-- What a bucket holds `elapsed` after it held `held`. -/
def refill (cap period held elapsed : Nat) : Nat := min cap (held + cap * elapsed / period)

/-- `period` times what a bucket would hold if nothing was rounded. -/
def level (cap period held elapsed : Nat) : Nat :=
  min (period * cap) (period * held + cap * elapsed)

theorem refill_le (cap period held elapsed : Nat) : refill cap period held elapsed ≤ cap :=
  min_le_left _ _

/-- A bucket that was not counted for a whole period is full. -/
theorem refill_min (hperiod : 0 < period) (held elapsed : Nat) :
    refill cap period held (min elapsed period) = refill cap period held elapsed := by
  rcases le_total elapsed period with hle | hle
  · rw [min_eq_left hle]
  · have hfull : cap * period / period = cap := Nat.mul_div_cancel cap hperiod
    have hmore : cap ≤ cap * elapsed / period := by
      calc cap
        _ = cap * period / period := hfull.symm
        _ ≤ cap * elapsed / period := Nat.div_le_div_right (Nat.mul_le_mul_left cap hle)
    rw [min_eq_right hle, refill, refill, hfull, min_eq_left (Nat.le_add_left _ _),
      min_eq_left (hmore.trans (Nat.le_add_left _ _))]

/-- Two counts find no more than one. -/
theorem refill_refill_le (cap period held first second : Nat) :
    refill cap period (refill cap period held first) second ≤
      refill cap period held (first + second) := by
  have hparts : cap * first / period + cap * second / period ≤ cap * (first + second) / period := by
    rw [Nat.mul_add]
    exact Nat.div_add_div_le_add_div
  apply le_min
  · exact refill_le _ _ _ _
  · have hheld : refill cap period held first ≤ held + cap * first / period := min_le_right _ _
    have hsecond : refill cap period (refill cap period held first) second ≤
        refill cap period held first + cap * second / period := min_le_right _ _
    omega

/-- A count finds no more than there is. -/
theorem mul_refill_le (held elapsed : Nat) :
    period * refill cap period held elapsed ≤ level cap period held elapsed := by
  apply le_min
  · exact Nat.mul_le_mul_left period (refill_le _ _ _ _)
  · have hflow : period * (cap * elapsed / period) ≤ cap * elapsed := Nat.mul_div_le _ _
    have hheld := Nat.mul_le_mul_left period
      (min_le_right cap (held + cap * elapsed / period))
    rw [refill]
    rw [Nat.mul_add] at hheld
    omega

/-- What is spent after a count is not in the bucket any more. -/
theorem level_spent (hspent : spent ≤ refill cap period held elapsed) :
    period * spent + level cap period (refill cap period held elapsed - spent) 0 ≤
      level cap period held elapsed := by
  have hlevel : level cap period (refill cap period held elapsed - spent) 0 ≤
      period * (refill cap period held elapsed - spent) + cap * 0 := min_le_right _ _
  have hsplit : period * spent + period * (refill cap period held elapsed - spent) =
      period * refill cap period held elapsed := by
    rw [← Nat.mul_add, Nat.add_sub_cancel' hspent]
  have hheld := @mul_refill_le cap period held elapsed
  omega

/-- The level rises by what flows in. -/
theorem level_add_le (held elapsed more : Nat) :
    level cap period held (elapsed + more) ≤ level cap period held elapsed + cap * more := by
  have hflow : cap * (elapsed + more) = cap * elapsed + cap * more := Nat.mul_add _ _ _
  unfold level
  omega

theorem level_mono (held : Nat) {elapsed elapsed' : Nat} (h : elapsed ≤ elapsed') :
    level cap period held elapsed ≤ level cap period held elapsed' :=
  min_le_min le_rfl (Nat.add_le_add_left (Nat.mul_le_mul_left cap h) _)

end RefillBucket

end Blurt
