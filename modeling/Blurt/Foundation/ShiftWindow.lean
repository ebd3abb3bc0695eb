import Mathlib.Algebra.BigOperators.Group.Finset.Basic
import Mathlib.Data.Nat.Bitwise

/-! # A window over the last bits of a stream

The window is a machine word: a new bit enters at the low end and the oldest one
leaves at the high end.
-/

namespace ShiftWindow

/-- The number of ones among the low `width` bits. -/
def oneBits (width word : Nat) : Nat :=
  ∑ i ∈ Finset.range width, (word.testBit i).toNat

/-- A word of ones. -/
theorem oneBits_full (width : Nat) : oneBits width (2 ^ width - 1) = width := by
  have hbit : ∀ i ∈ Finset.range width, ((2 ^ width - 1).testBit i).toNat = 1 := by
    intro i hi
    simp [Nat.testBit_two_pow_sub_one, Finset.mem_range.mp hi]
  unfold oneBits
  rw [Finset.sum_congr rfl hbit]
  simp

/-- The word after `bit` has entered. -/
def push (width word : Nat) (bit : Bool) : Nat := word * 2 % 2 ^ width + bit.toNat

theorem mul_two_mod (width word : Nat) :
    word * 2 % 2 ^ (width + 1) = word % 2 ^ width * 2 := by
  rw [pow_succ, Nat.mul_mod_mul_right]

theorem push_lt (width word : Nat) (bit : Bool) : push (width + 1) word bit < 2 ^ (width + 1) := by
  unfold push
  have hlow : word % 2 ^ width < 2 ^ width := Nat.mod_lt _ (Nat.two_pow_pos width)
  have hbit := Bool.toNat_lt bit
  rw [mul_two_mod, pow_succ]
  omega

theorem testBit_push_zero (width word : Nat) (bit : Bool) :
    (push (width + 1) word bit).testBit 0 = bit := by
  unfold push
  rw [mul_two_mod, Nat.testBit_zero]
  cases bit <;> simp [Nat.add_mod]

theorem testBit_push_succ {width i : Nat} (hi : i < width) (word : Nat) (bit : Bool) :
    (push (width + 1) word bit).testBit (i + 1) = word.testBit i := by
  unfold push
  have hbit := Bool.toNat_lt bit
  have hhalf : (word % 2 ^ width * 2 + bit.toNat) / 2 = word % 2 ^ width := by omega
  rw [mul_two_mod, Nat.testBit_succ, hhalf, Nat.testBit_mod_two_pow]
  simp [hi]

/-- The count without the oldest bit, and the oldest bit. -/
theorem oneBits_succ {width word : Nat} (hword : word < 2 ^ (width + 1)) :
    oneBits (width + 1) word = oneBits width word + word / 2 ^ width := by
  unfold oneBits
  rw [Finset.sum_range_succ]
  congr 1
  rw [Nat.testBit_eq_decide_div_mod_eq]
  have htop : word / 2 ^ width < 2 := by
    apply Nat.div_lt_of_lt_mul
    rwa [← pow_succ]
  rw [Nat.mod_eq_of_lt htop]
  have hbinary := Nat.le_one_iff_eq_zero_or_eq_one.mp (Nat.lt_succ_iff.mp htop)
  rcases hbinary with hzero | hone
  · rw [hzero]
    rfl
  · rw [hone]
    rfl

/-- The oldest bit leaves the count, the new one enters. -/
theorem oneBits_push (width word : Nat) (bit : Bool) :
    oneBits (width + 1) (push (width + 1) word bit) = oneBits width word + bit.toNat := by
  unfold oneBits
  rw [Finset.sum_range_succ', testBit_push_zero]
  congr 1
  apply Finset.sum_congr rfl
  intro i hi
  rw [testBit_push_succ (Finset.mem_range.mp hi)]

end ShiftWindow
