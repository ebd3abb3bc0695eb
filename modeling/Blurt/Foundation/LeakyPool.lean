import Mathlib.Algebra.Order.Ring.Nat
import Mathlib.Order.Monotone.Basic

/-! # A pool that leaks

Of a pool a fraction `rate / scale` leaks in every step, rounded down.
-/

namespace Blurt

namespace LeakyPool

variable {rate scale inflow : Nat}

/-- What leaks of a pool in one step. -/
def leak (rate scale pool : Nat) : Nat := rate * pool / scale

/-- The least pool that leaks as much as flows in. -/
def balance (rate scale inflow : Nat) : Nat := (inflow * scale + (rate - 1)) / rate

/-- A pool that leaks no more than all grows faster than its leak. -/
theorem leak_add_le (hrate : rate ≤ scale) (hscale : 0 < scale) (pool more : Nat) :
    leak rate scale (pool + more) ≤ leak rate scale pool + more := by
  have hmore : rate * (pool + more) ≤ rate * pool + scale * more := by
    rw [Nat.mul_add]
    exact Nat.add_le_add_left (Nat.mul_le_mul_right more hrate) _
  calc leak rate scale (pool + more)
    _ ≤ (rate * pool + scale * more) / scale := Nat.div_le_div_right hmore
    _ = leak rate scale pool + more := Nat.add_mul_div_left _ _ hscale

theorem leak_le (hrate : rate ≤ scale) (pool : Nat) : leak rate scale pool ≤ pool :=
  Nat.div_le_of_le_mul (Nat.mul_le_mul_right pool hrate)

/-- A pool leaks as much as flows in from its balance on. -/
theorem inflow_le_leak_iff (hrate : 0 < rate) (hscale : 0 < scale) (pool : Nat) :
    inflow ≤ leak rate scale pool ↔ balance rate scale inflow ≤ pool := by
  rw [leak, Nat.le_div_iff_mul_le hscale, balance, Nat.div_le_iff_le_mul_add_pred hrate,
    Nat.mul_comm rate pool, Nat.mul_comm pool rate, Nat.add_le_add_iff_right]

theorem balance_pos (hrate : 0 < rate) (hscale : 0 < scale) (hinflow : 0 < inflow) :
    0 < balance rate scale inflow := by
  apply Nat.div_pos _ hrate
  have hscaled : 0 < inflow * scale := Nat.mul_pos hinflow hscale
  omega

/-- Up to its balance a pool leaks no more than flows in. -/
theorem leak_le_inflow (hrate : 0 < rate) (hle : rate ≤ scale) {pool : Nat}
    (hpool : pool ≤ balance rate scale inflow) : leak rate scale pool ≤ inflow := by
  have hscale : 0 < scale := hrate.trans_le hle
  rcases Nat.eq_zero_or_pos pool with rfl | hpos
  · simp [leak]
  · obtain ⟨before, rfl⟩ := Nat.exists_eq_succ_of_ne_zero hpos.ne'
    have hbefore : leak rate scale before < inflow := by
      rw [← not_le, inflow_le_leak_iff hrate hscale]
      omega
    have hstep := leak_add_le hle hscale before 1
    rw [Nat.succ_eq_add_one]
    omega

end LeakyPool

end Blurt
