import Mathlib.Algebra.Order.Round
import Mathlib.Data.Int.Log
import Mathlib.Data.Rat.Floor
import Mathlib.Tactic.Linarith
import Mathlib.Tactic.Positivity

/-! # Floating point numbers of double precision

The result of an operation on doubles is the double nearest to the exact result, ties to
even. Exponents have no bounds here: no number of this development leaves them.
-/

namespace Double

/-- The nearest integer, ties to even. -/
def roundEven (q : ℚ) : ℤ :=
  if Int.fract q < 1 / 2 then ⌊q⌋
  else if 1 / 2 < Int.fract q then ⌊q⌋ + 1
  else if ⌊q⌋ % 2 = 0 then ⌊q⌋ else ⌊q⌋ + 1

theorem abs_roundEven_sub_le (q : ℚ) : |(roundEven q : ℚ) - q| ≤ 1 / 2 := by
  have hfract := Int.floor_add_fract q
  have hlow := Int.fract_nonneg q
  have hhigh := Int.fract_lt_one q
  unfold roundEven
  split_ifs <;> rw [abs_le] <;> push_cast <;> constructor <;> linarith

@[simp] theorem roundEven_intCast (n : ℤ) : roundEven n = n := by
  unfold roundEven
  rw [if_pos (by rw [Int.fract_intCast]; norm_num), Int.floor_intCast]

theorem le_roundEven {n : ℤ} {q : ℚ} (h : n ≤ q) : n ≤ roundEven q := by
  have hfloor : n ≤ ⌊q⌋ := Int.le_floor.mpr h
  unfold roundEven
  split_ifs <;> omega

theorem roundEven_le {n : ℤ} {q : ℚ} (h : q ≤ n) : roundEven q ≤ n := by
  have hclose := abs_le.mp (abs_roundEven_sub_le q)
  by_contra hlt
  have hlt : (n : ℚ) + 1 ≤ roundEven q := by exact_mod_cast not_le.mp hlt
  have hq : q = n := by linarith
  rw [hq, roundEven_intCast] at hlt
  linarith

/-- The exponent of the last bit of the 53 that a double keeps. -/
def exponent (q : ℚ) : ℤ := Int.log 2 |q| - 52

/-- The nearest double. -/
def nearest (q : ℚ) : ℚ := roundEven (q / 2 ^ exponent q) * 2 ^ exponent q

theorem two_zpow_pos (e : ℤ) : (0 : ℚ) < 2 ^ e := zpow_pos (by norm_num) e

theorem two_zpow_exponent_le {q : ℚ} (h : q ≠ 0) : 2 ^ 52 * (2 : ℚ) ^ exponent q ≤ |q| := by
  have hlog := Int.zpow_log_le_self (b := 2) (r := |q|) (by decide) (abs_pos.mpr h)
  have hsplit : 2 ^ 52 * (2 : ℚ) ^ exponent q = 2 ^ Int.log 2 |q| := by
    rw [← zpow_natCast, ← zpow_add₀ (by norm_num)]
    congr 1
    unfold exponent
    push_cast
    ring
  rw [hsplit]
  exact_mod_cast hlog

/-- Rounding moves a number by at most its 53rd part of two. -/
theorem abs_nearest_sub_le (q : ℚ) : |nearest q - q| ≤ |q| / 2 ^ 53 := by
  by_cases hq : q = 0
  · subst hq
    rw [nearest, zero_div]
    simp [show roundEven 0 = 0 from roundEven_intCast 0]
  · have hpos := two_zpow_pos (exponent q)
    have hscaled := abs_roundEven_sub_le (q / 2 ^ exponent q)
    have hsub : nearest q - q =
        (roundEven (q / 2 ^ exponent q) - q / 2 ^ exponent q) * 2 ^ exponent q := by
      rw [nearest, sub_mul, div_mul_cancel₀ _ hpos.ne']
    rw [hsub, abs_mul, abs_of_pos hpos]
    have hbound := two_zpow_exponent_le hq
    calc |(roundEven (q / 2 ^ exponent q) : ℚ) - q / 2 ^ exponent q| * 2 ^ exponent q
        ≤ 1 / 2 * 2 ^ exponent q := by gcongr
      _ = 2 ^ 52 * 2 ^ exponent q / 2 ^ 53 := by ring
      _ ≤ |q| / 2 ^ 53 := by gcongr

theorem abs_nearest_le (q : ℚ) : |nearest q| ≤ 2 * |q| := by
  have hclose := abs_le.mp (abs_nearest_sub_le q)
  have hsmall : |q| / 2 ^ 53 ≤ |q| := div_le_self (abs_nonneg q) (by norm_num)
  have hq := abs_le.mp (le_refl |q|)
  rw [abs_le]
  constructor <;> linarith

/-- Integers of up to 53 bits are doubles. -/
theorem nearest_intCast {n : ℤ} (h : |n| ≤ 2 ^ 53) : nearest n = n := by
  have hexact {e : ℤ} {m : ℤ} (hm : (n : ℚ) / 2 ^ e = m) :
      (roundEven ((n : ℚ) / 2 ^ e) : ℚ) * 2 ^ e = n := by
    rw [hm, roundEven_intCast, ← hm, div_mul_cancel₀ _ (two_zpow_pos e).ne']
  rcases h.lt_or_eq with hlt | heq
  · by_cases hn : n = 0
    · subst hn
      simp [nearest, show roundEven 0 = 0 from roundEven_intCast 0]
    · have hlog : Int.log 2 |(n : ℚ)| < 53 := by
        rw [← Int.lt_zpow_iff_log_lt (by decide) (by positivity)]
        exact_mod_cast hlt
      obtain ⟨k, hk⟩ : ∃ k : ℕ, exponent (n : ℚ) = -(k : ℤ) := by
        refine ⟨(-exponent (n : ℚ)).toNat, ?_⟩
        unfold exponent
        omega
      apply hexact (m := n * 2 ^ k)
      rw [hk, zpow_neg, zpow_natCast, div_inv_eq_mul]
      push_cast
      rfl
  · have hlog : Int.log 2 |(n : ℚ)| = 53 := by
      have habs : |(n : ℚ)| = (2 : ℚ) ^ (53 : ℤ) := by exact_mod_cast heq
      rw [habs]
      exact_mod_cast Int.log_zpow (R := ℚ) (b := 2) (by decide) 53
    have hexp : exponent (n : ℚ) = 1 := by
      rw [exponent, hlog]
      rfl
    unfold nearest
    rw [hexp]
    rcases abs_eq (by positivity) |>.mp heq with hn | hn
    · apply hexact (m := 2 ^ 52)
      rw [hn]
      norm_num
    · apply hexact (m := -2 ^ 52)
      rw [hn]
      norm_num

/-- An integer is rounded to an integer: from 53 bits on, the last bit kept is not a fraction. -/
theorem exists_nearest_intCast (n : ℤ) : ∃ m : ℤ, nearest n = m := by
  rcases le_or_gt |n| (2 ^ 53) with hle | hlt
  · exact ⟨n, nearest_intCast hle⟩
  · have hlog : (53 : ℤ) ≤ Int.log 2 |(n : ℚ)| := by
      have habs : (0 : ℚ) < |(n : ℚ)| := by
        have : (0 : ℤ) < |n| := lt_trans (by positivity) hlt
        exact_mod_cast this
      rw [← Int.zpow_le_iff_le_log (by decide) habs]
      exact_mod_cast hlt.le
    obtain ⟨k, hk⟩ : ∃ k : ℕ, exponent (n : ℚ) = k := by
      apply Int.eq_ofNat_of_zero_le
      unfold exponent
      omega
    refine ⟨roundEven ((n : ℚ) / 2 ^ exponent (n : ℚ)) * 2 ^ k, ?_⟩
    unfold nearest
    rw [hk, zpow_natCast]
    push_cast
    rfl

/-- Larger numbers stay above. -/
theorem le_nearest {q : ℚ} (h : 2 ^ 53 ≤ q) : 2 ^ 53 ≤ nearest q := by
  have hpos : 0 < q := lt_of_lt_of_le (by positivity) h
  have hbound := two_zpow_exponent_le hpos.ne'
  rw [abs_of_pos hpos] at hbound
  have hpow := two_zpow_pos (exponent q)
  have hround : ((2 ^ 52 : ℤ) : ℚ) ≤ roundEven (q / 2 ^ exponent q) := by
    have : ((2 ^ 52 : ℤ) : ℚ) ≤ q / 2 ^ exponent q := by
      rw [le_div_iff₀ hpow]
      push_cast
      exact hbound
    exact_mod_cast le_roundEven this
  have hexp : (1 : ℤ) ≤ exponent q := by
    have hlog : (53 : ℤ) ≤ Int.log 2 q := by
      rw [← Int.zpow_le_iff_le_log (by decide) hpos]
      exact_mod_cast h
    unfold exponent
    rw [abs_of_pos hpos]
    omega
  calc (2 : ℚ) ^ 53 = ((2 ^ 52 : ℤ) : ℚ) * 2 ^ (1 : ℤ) := by norm_num
    _ ≤ roundEven (q / 2 ^ exponent q) * 2 ^ exponent q := by
        gcongr
        norm_num

/-- A negative number stays negative. -/
theorem nearest_neg {q : ℚ} (h : q < 0) : nearest q < 0 := by
  have hbound := two_zpow_exponent_le h.ne
  rw [abs_of_neg h] at hbound
  have hpow := two_zpow_pos (exponent q)
  have hround : roundEven (q / 2 ^ exponent q) ≤ (-2 ^ 52 : ℤ) := by
    apply roundEven_le
    rw [div_le_iff₀ hpow]
    push_cast
    linarith
  have hround : (roundEven (q / 2 ^ exponent q) : ℚ) < 0 := by
    have : roundEven (q / 2 ^ exponent q) < 0 := lt_of_le_of_lt hround (by norm_num)
    exact_mod_cast this
  exact mul_neg_of_neg_of_pos hround hpow

/-- A number below `2 ^ 51` survives a division by a power of ten, rounded, and the
multiplication that undoes it, rounded to a double and then to the nearest integer. -/
theorem round_nearest_mul_nearest {n : ℤ} (hn : |n| < 2 ^ 51) {scale : ℚ} (hscale : 0 < scale) :
    round (nearest (nearest (n / scale) * scale)) = n := by
  have hfirst := abs_nearest_sub_le ((n : ℚ) / scale)
  have hsecond := abs_nearest_sub_le (nearest ((n : ℚ) / scale) * scale)
  have hn' : |(n : ℚ)| ≤ 2 ^ 51 - 1 := by
    have : |n| ≤ 2 ^ 51 - 1 := by omega
    exact_mod_cast this
  have hmul : |nearest ((n : ℚ) / scale) * scale - n| ≤ |(n : ℚ)| / 2 ^ 53 := by
    have hsub : nearest ((n : ℚ) / scale) * scale - n =
        (nearest ((n : ℚ) / scale) - n / scale) * scale := by
      rw [sub_mul, div_mul_cancel₀ _ hscale.ne']
    rw [hsub, abs_mul, abs_of_pos hscale]
    calc |nearest ((n : ℚ) / scale) - n / scale| * scale
        ≤ |(n : ℚ) / scale| / 2 ^ 53 * scale := by gcongr
      _ = |(n : ℚ)| / 2 ^ 53 := by
          rw [abs_div, abs_of_pos hscale]
          field_simp
  have hsize : |nearest ((n : ℚ) / scale) * scale| ≤ |(n : ℚ)| + |(n : ℚ)| / 2 ^ 53 := by
    have := abs_le.mp hmul
    rcases abs_cases (nearest ((n : ℚ) / scale) * scale) with h | h <;>
      rcases abs_cases (n : ℚ) with h' | h' <;> linarith
  have hfinal : |nearest (nearest ((n : ℚ) / scale) * scale) - n| < 1 / 2 := by
    rw [abs_lt]
    have hm := abs_le.mp hmul
    have hs := abs_le.mp hsecond
    have : |nearest ((n : ℚ) / scale) * scale| / 2 ^ 53 ≤
        (2 ^ 51 - 1 + (2 ^ 51 - 1) / 2 ^ 53) / 2 ^ 53 := by
      gcongr
      refine hsize.trans ?_
      gcongr
    have hn53 : |(n : ℚ)| / 2 ^ 53 ≤ (2 ^ 51 - 1) / 2 ^ 53 := by gcongr
    norm_num at this hn53 hm hs ⊢
    constructor <;> linarith
  rw [abs_lt] at hfinal
  rw [round_eq, Int.floor_eq_iff]
  constructor <;> linarith

end Double
