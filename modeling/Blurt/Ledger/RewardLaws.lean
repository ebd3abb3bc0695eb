import Blurt.Ledger.Reward
import Mathlib.Tactic.Linarith
import Mathlib.Tactic.Positivity
import Mathlib.Tactic.Ring

/-! # The curves of curation

The approximate root is one step of Newton's iteration, from the nearest power of two. It is
monotone, and so are the curves that use it alone; a quotient by it is not.
-/

namespace Blurt

namespace Ledger

/-! ## The approximate root -/

/-- The exponent of the power of two from which `approx_sqrt` starts. -/
def rootExponent (x : Nat) : Nat := (findMsb x + 1) / 2

theorem lt_of_rootExponent (x : Nat) : x < 2 ^ (2 * rootExponent x + 1) := by
  have hlog : x < 2 ^ (findMsb x + 1) := Nat.lt_log2_self
  refine hlog.trans_le (Nat.pow_le_pow_right (by decide) ?_)
  unfold rootExponent
  omega

theorem le_of_rootExponent {x : Nat} (hx : x ≠ 0) : 4 ^ rootExponent x ≤ 2 * x := by
  have hlog : 2 ^ findMsb x ≤ x := Nat.log2_self_le hx
  calc 4 ^ rootExponent x = 2 ^ (2 * rootExponent x) := by rw [Nat.pow_mul]
    _ ≤ 2 ^ (findMsb x + 1) := by
      refine Nat.pow_le_pow_right (by decide) ?_
      unfold rootExponent
      omega
    _ ≤ 2 * x := by
      rw [Nat.pow_succ]
      omega

theorem rootExponent_mono {x y : Nat} (hx : x ≠ 0) (h : x ≤ y) :
    rootExponent x ≤ rootExponent y := by
  have hlog : x.log2 ≤ y.log2 := by
    rw [Nat.le_log2 (by omega)]
    exact (Nat.log2_self_le hx).trans h
  unfold rootExponent findMsb
  omega

theorem two_pow_or {k z : Nat} (hz : z < 2 ^ k) : 2 ^ k ||| z = 2 ^ k + z := by
  have hor := Nat.two_pow_add_eq_or_of_lt hz 1
  rw [Nat.mul_one] at hor
  exact hor.symm

/-- `approx_sqrt` takes one step of Newton's iteration. -/
theorem approxSqrt_eq {x : Nat} (hx : x ≠ 0) :
    approxSqrt x = (x + 4 ^ rootExponent x) / 2 ^ (rootExponent x + 1) := by
  obtain ⟨m, hm, hmod⟩ : ∃ m, x = 2 ^ findMsb x + m ∧ x % 2 ^ findMsb x = m ∧ m < 2 ^ findMsb x := by
    have hlow : 2 ^ findMsb x ≤ x := Nat.log2_self_le hx
    have hhigh : x < 2 ^ (findMsb x + 1) := Nat.lt_log2_self
    rw [Nat.pow_succ] at hhigh
    refine ⟨x - 2 ^ findMsb x, by omega, ?_, by omega⟩
    rw [Nat.mod_eq_sub_mod hlow, Nat.mod_eq_of_lt (by omega)]
  obtain ⟨hmod, hlt⟩ := hmod
  simp only [approxSqrt, if_neg hx, hmod]
  have hpow : ∀ k, 2 ^ (2 * k) = 2 ^ k * 2 ^ k := fun k => by rw [Nat.two_mul, Nat.pow_add]
  have hfour : ∀ k, 4 ^ k = 2 ^ k * 2 ^ k := fun k => by rw [← hpow, Nat.pow_mul]
  obtain ⟨k, hk | hk⟩ : ∃ k, findMsb x = 2 * k ∨ findMsb x = 2 * k + 1 :=
    ⟨findMsb x / 2, by omega⟩
  · have hexponent : rootExponent x = k := by
      unfold rootExponent
      omega
    have hlo : m / 2 ^ k < 2 ^ k := by
      rw [hk, hpow] at hlt
      exact Nat.div_lt_of_lt_mul hlt
    have hhalf : findMsb x / 2 = k := by omega
    have hrest : findMsb x - k = k := by omega
    have heven : findMsb x % 2 ≠ 1 := by omega
    have hmantissa : m / 2 ^ k / 2 < 2 ^ k := (Nat.div_le_self _ _).trans_lt hlo
    rw [hexponent, hhalf, hrest, if_neg heven, Nat.zero_or, two_pow_or hmantissa,
      Nat.div_div_eq_div_mul, ← Nat.pow_succ, hm, hk, hpow, hfour]
    have hsum : 2 ^ k * 2 ^ k + m + 2 ^ k * 2 ^ k = m + 2 ^ (k + 1) * 2 ^ k := by ring
    rw [hsum, Nat.add_mul_div_left _ _ (by positivity), Nat.add_comm]
  · have hexponent : rootExponent x = k + 1 := by
      unfold rootExponent
      omega
    have hlo : m / 2 ^ (k + 1) < 2 ^ k := by
      rw [hk, Nat.pow_succ, hpow] at hlt
      apply Nat.div_lt_of_lt_mul
      calc m < 2 ^ k * 2 ^ k * 2 := hlt
        _ = 2 ^ (k + 1) * 2 ^ k := by ring
    have hhalf : findMsb x / 2 = k := by omega
    have hrest : findMsb x - k = k + 1 := by omega
    have hodd : findMsb x % 2 = 1 := by omega
    rw [hexponent, hhalf, hrest, if_pos hodd, two_pow_or hlo, two_pow_or (by omega), hm, hk,
      Nat.pow_succ 2 (k + 1), ← Nat.div_div_eq_div_mul]
    have hsum : 2 ^ (2 * k + 1) + m + 4 ^ (k + 1) = m + 2 ^ (k + 1) * (3 * 2 ^ k) := by
      rw [hfour, Nat.pow_succ 2 (2 * k), hpow]
      ring
    rw [hsum, Nat.add_mul_div_left _ _ (by positivity)]
    omega

theorem approxSqrt_pos {x : Nat} (hx : x ≠ 0) : 0 < approxSqrt x := by
  rw [approxSqrt_eq hx]
  apply Nat.div_pos _ (by positivity)
  have hlow := le_of_rootExponent hx
  have hpow : 4 ^ rootExponent x = 2 ^ rootExponent x * 2 ^ rootExponent x := by
    rw [← Nat.mul_pow]
  rw [Nat.pow_succ]
  nlinarith [Nat.two_pow_pos (rootExponent x)]

theorem approxSqrt_mono {x y : Nat} (h : x ≤ y) : approxSqrt x ≤ approxSqrt y := by
  by_cases hx : x = 0
  · rw [hx, approxSqrt, if_pos rfl]
    exact Nat.zero_le _
  have hy : y ≠ 0 := by omega
  rw [approxSqrt_eq hx, approxSqrt_eq hy]
  obtain heq | hlt := (rootExponent_mono hx h).eq_or_lt
  · rw [heq]
    exact Nat.div_le_div_right (by omega)
  · -- below `2 * 4 ^ k` the root is at most `3 * 2 ^ k / 2`, and from there on at least that
    have hfour : ∀ k, 4 ^ k = 2 ^ k * 2 ^ k := fun k => by rw [← Nat.mul_pow]
    have hhigh := lt_of_rootExponent x
    have hlow := le_of_rootExponent hy
    have hdouble : 2 * 2 ^ rootExponent x ≤ 2 ^ rootExponent y := by
      rw [← Nat.pow_succ']
      exact Nat.pow_le_pow_right (by decide) hlt
    rw [Nat.pow_succ, Nat.pow_mul, hfour] at hhigh
    rw [hfour] at hlow
    rw [hfour, hfour, Nat.pow_succ, Nat.pow_succ]
    generalize 2 ^ rootExponent x = a at *
    generalize hb : 2 ^ rootExponent y = b at *
    have hbpos : 0 < b := hb ▸ Nat.two_pow_pos _
    calc (x + a * a) / (a * 2) ≤ a * (3 * a) / (a * 2) := Nat.div_le_div_right (by nlinarith)
      _ ≤ 3 * a / 2 := by
        obtain rfl | ha := a.eq_zero_or_pos
        · simp
        · rw [Nat.mul_div_mul_left _ _ ha]
      _ ≤ (y + b * b) / (b * 2) := by
        rw [Nat.le_div_iff_mul_le (by omega)]
        have hhalf : 3 * a / 2 * 2 ≤ 3 * a := Nat.div_mul_le_self _ _
        nlinarith

/-! ## Weights of curation -/

/-- The curves of curation. -/
def curationCurves : List CurveId := [.convergentSquareRoot, .boundedCuration, .linear, .squareRoot]

/-- What a curve of curation makes of a sum of rshares. -/
def weightOf (curve : CurveId) (s r : Nat) : Nat :=
  match curve with
  | .convergentSquareRoot => r / approxSqrt (r + 2 * s)
  | .boundedCuration => r * 2 ^ 64 / (2 * s + r)
  | .squareRoot => approxSqrt r
  | _ => r

/-- From `old` to `new` rshares the approximate root does not outgrow the rshares. -/
def RootKeepsPace (s old new : Nat) : Prop :=
  old / approxSqrt (old + 2 * s) * approxSqrt (new + 2 * s) ≤ new

instance (s old new : Nat) : Decidable (RootKeepsPace s old new) :=
  inferInstanceAs (Decidable (_ ≤ _))

variable {curve : CurveId} {s r old new : Nat}

theorem evaluateRewardCurve_eq (hcurve : curve ∈ curationCurves) (hs : 0 < s) (hconstant : s < 2 ^ 64)
    (hr : r < 2 ^ 63) : evaluateRewardCurve r curve s = .ok (weightOf curve s r) := by
  have hwrap : ∀ x, x < 2 ^ 128 → UInt128.wrap x = x := fun x hx => Nat.mod_eq_of_lt hx
  simp only [curationCurves, List.mem_cons, List.not_mem_nil, or_false] at hcurve
  obtain rfl | rfl | rfl | rfl := hcurve
  · have hroot := approxSqrt_pos (x := r + 2 * s) (by omega)
    rw [evaluateRewardCurve, hwrap (2 * s) (by omega), hwrap _ (by omega), UInt128.div_eq_ok]
    exact ⟨by omega, rfl⟩
  · rw [evaluateRewardCurve, hwrap (s * 2) (by omega), hwrap _ (by omega), UInt128.div_eq_ok,
      Nat.mod_eq_of_lt (by omega), Nat.mul_comm s 2]
    exact ⟨by omega, rfl⟩
  · rfl
  · rfl

theorem approxSqrt_le (x : Nat) : approxSqrt x ≤ 2 * x := by
  by_cases hx : x = 0
  · rw [hx, approxSqrt, if_pos rfl]
  · rw [approxSqrt_eq hx]
    have hlow := le_of_rootExponent hx
    apply Nat.div_le_of_le_mul
    have hpos := Nat.two_pow_pos (rootExponent x)
    rw [Nat.pow_succ]
    nlinarith

theorem weightOf_lt (hs : 0 < s) (hr : r < 2 ^ 63) : weightOf curve s r < 2 ^ 64 := by
  cases curve with
  | convergentSquareRoot =>
      have hle := Nat.div_le_self r (approxSqrt (r + 2 * s))
      simp only [weightOf]
      omega
  | boundedCuration =>
      simp only [weightOf]
      apply Nat.div_lt_of_lt_mul
      omega
  | squareRoot =>
      have hle := approxSqrt_le r
      simp only [weightOf]
      omega
  | quadratic | linear | convergentLinear =>
      simp only [weightOf]
      omega

theorem weightOf_zero (curve : CurveId) (s : Nat) : weightOf curve s 0 = 0 := by
  cases curve <;> simp [weightOf, approxSqrt]

/-- The weight does not fall, unless an approximate root outgrows the rshares. -/
theorem weightOf_le_iff (hs : 0 < s) (h : old ≤ new) :
    weightOf curve s old ≤ weightOf curve s new ↔
      (curve = .convergentSquareRoot → RootKeepsPace s old new) := by
  cases curve with
  | convergentSquareRoot =>
      have hroot := approxSqrt_pos (x := new + 2 * s) (by omega)
      simp only [weightOf, RootKeepsPace, Nat.le_div_iff_mul_le hroot, forall_const]
  | boundedCuration =>
      refine iff_of_true ?_ nofun
      simp only [weightOf]
      rw [Nat.le_div_iff_mul_le (by omega)]
      have hold : old * 2 ^ 64 / (2 * s + old) * (2 * s + old) ≤ old * 2 ^ 64 := Nat.div_mul_le_self _ _
      have hbound : old * 2 ^ 64 / (2 * s + old) ≤ 2 ^ 64 := by
        apply Nat.div_le_of_le_mul
        nlinarith
      nlinarith
  | squareRoot => exact iff_of_true (approxSqrt_mono h) nofun
  | quadratic | linear | convergentLinear => exact iff_of_true h nofun

/-- The weight of a convergent root grows by at most the rshares. -/
theorem weightOf_gain (hs : 0 < s) (h : old ≤ new) :
    weightOf .convergentSquareRoot s new - weightOf .convergentSquareRoot s old ≤ new - old := by
  have hroot := approxSqrt_pos (x := old + 2 * s) (by omega)
  have hmono : approxSqrt (old + 2 * s) ≤ approxSqrt (new + 2 * s) := approxSqrt_mono (by omega)
  have hnew : new / approxSqrt (new + 2 * s) ≤ old / approxSqrt (old + 2 * s) + (new - old) :=
    calc new / approxSqrt (new + 2 * s) ≤ new / approxSqrt (old + 2 * s) :=
          Nat.div_le_div_left hmono hroot
      _ ≤ (old + (new - old) * approxSqrt (old + 2 * s)) / approxSqrt (old + 2 * s) := by
        apply Nat.div_le_div_right
        have hgrow : new - old ≤ (new - old) * approxSqrt (old + 2 * s) := Nat.le_mul_of_pos_right _ hroot
        omega
      _ = old / approxSqrt (old + 2 * s) + (new - old) := Nat.add_mul_div_right _ _ hroot
  simp only [weightOf]
  omega

end Ledger

end Blurt
