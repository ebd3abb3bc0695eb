import Blurt.Ledger.ProposalRemoval
import Blurt.Ledger.SpsProcessor
import Mathlib.Tactic.Linarith
import Mathlib.Tactic.Positivity
import Mathlib.Tactic.Ring

/-! # Pay by elapsed time

What a proposal is paid for the time since the last payment. The ratio of that time to a day is
computed in 32 bits, which the budget of the same payment is not.
-/

namespace Blurt

namespace Ledger

namespace Database

/-- A proposal of a daily pay is paid for the elapsed time: for its part of a day, rounded down
to ten-thousandths, the amount rounded down once more, and never less than for a shorter time. -/
structure PaysElapsed (db : Database) (headTime : Nat) (dailyPay : Int) (pay : Int) : Prop where
  ratio : db.paymentRatio headTime =
    db.passedTimeSeconds headTime * blurt100Percent / dailySeconds
  paid : periodPay (db.paymentRatio headTime) dailyPay = .ok pay
  atMost : pay * dailySeconds ≤ dailyPay * db.passedTimeSeconds headTime
  shortfall : dailyPay * db.passedTimeSeconds headTime * blurt100Percent <
    (pay + 1) * dailySeconds * blurt100Percent + dailyPay * dailySeconds
  monotone : ∀ {db' : Database} {headTime' : Nat} {pay' : Int},
    db'.passedTimeSeconds headTime' ≤ db.passedTimeSeconds headTime →
      periodPay (db'.paymentRatio headTime') dailyPay = .ok pay' → pay' ≤ pay

/-- The products fit: that of the seconds in 32 bits, that of the ratio in 64. -/
def PayFits (db : Database) (headTime : Nat) (dailyPay : Int) : Prop :=
  db.passedTimeSeconds headTime * blurt100Percent < 2 ^ 32 ∧
    (db.passedTimeSeconds headTime * blurt100Percent / dailySeconds : Nat) * dailyPay < 2 ^ 64

variable {db : Database} {headTime : Nat} {dailyPay pay : Int}

theorem paymentRatio_lt (db : Database) (headTime : Nat) : db.paymentRatio headTime < 2 ^ 16 := by
  have hmod := Nat.mod_lt (db.passedTimeSeconds headTime * blurt100Percent)
    (show 0 < 2 ^ 32 by decide)
  rw [paymentRatio, Nat.div_lt_iff_lt_mul (by decide)]
  exact hmod.trans (by decide)

/-- The ratio is the one of the elapsed time unless its product wraps. -/
theorem paymentRatio_eq_iff : db.paymentRatio headTime =
    db.passedTimeSeconds headTime * blurt100Percent / dailySeconds ↔
      db.passedTimeSeconds headTime * blurt100Percent < 2 ^ 32 := by
  unfold paymentRatio
  generalize db.passedTimeSeconds headTime * blurt100Percent = product
  constructor
  · intro hratio
    by_contra hwraps
    have hless : product % 2 ^ 32 + dailySeconds ≤ product := by
      have : dailySeconds ≤ 2 ^ 32 := by decide
      omega
    have hsucc := Nat.div_le_div_right (c := dailySeconds) hless
    rw [Nat.add_div_right _ (by decide), hratio] at hsucc
    exact absurd hsucc (by omega)
  · intro hfits
    rw [Nat.mod_eq_of_lt hfits]

theorem periodPay_eq_ok {ratio : Nat} (hratio : ratio < 2 ^ 16) (hlow : 0 ≤ dailyPay)
    (hhigh : dailyPay < 2 ^ 63) : periodPay ratio dailyPay = .ok pay ↔
      (ratio : Int) * dailyPay < 2 ^ 64 ∧ pay = ratio * dailyPay / blurt100Percent := by
  obtain ⟨amount, rfl⟩ := Int.eq_ofNat_of_zero_le hlow
  have hamount : amount < 2 ^ 63 := by omega
  have hsmall : ratio * amount < 2 ^ 128 :=
    calc ratio * amount ≤ 2 ^ 16 * 2 ^ 63 := Nat.mul_le_mul hratio.le hamount.le
      _ < 2 ^ 128 := by decide
  have hwrap : UInt128.wrap (ratio * UInt128.ofInt (amount : Int)) = ratio * amount := by
    rw [UInt128.ofInt_natCast (hamount.trans (by decide)), UInt128.wrap, Nat.mod_eq_of_lt hsmall]
  unfold periodPay
  simp only [hwrap, Outcome.bind_eq_ok, UInt128.toUInt64_eq_ok, Outcome.pure_eq_ok]
  have hcast : (ratio : Int) * (amount : Int) = (ratio * amount : Nat) := by push_cast; rfl
  rw [hcast]
  have hquotient (h : ratio * amount < 2 ^ 64) :
      wrapInt64 ((ratio * amount / blurt100Percent : Nat) : Int) =
        ((ratio * amount : Nat) : Int) / (blurt100Percent : Nat) := by
    have hbound : ratio * amount / blurt100Percent < 2 ^ 63 := by
      rw [Nat.div_lt_iff_lt_mul (by decide)]
      exact h.trans (by decide)
    rw [wrapInt64_of_lt (Int.natCast_nonneg _) (by exact_mod_cast hbound)]
    push_cast
    rfl
  constructor
  · rintro ⟨product, ⟨hfits, rfl⟩, rfl⟩
    exact ⟨by exact_mod_cast hfits, hquotient hfits⟩
  · rintro ⟨hfits, rfl⟩
    have hfits : ratio * amount < 2 ^ 64 := by exact_mod_cast hfits
    exact ⟨ratio * amount, ⟨hfits, rfl⟩, hquotient hfits⟩

/-- Two roundings: the ratio of the time to a day, and the pay for that ratio. -/
theorem pay_bounds {elapsed ratio day whole amount pay : Int} (hamount : 0 ≤ amount)
    (hday : 0 < day) (hwhole : 0 < whole) (hfloor : ratio * day ≤ elapsed * whole)
    (hceil : elapsed * whole < (ratio + 1) * day) (hpay : pay * whole ≤ ratio * amount)
    (hpay' : ratio * amount < (pay + 1) * whole) :
    pay * day ≤ amount * elapsed ∧
      amount * elapsed * whole < (pay + 1) * day * whole + amount * day := by
  constructor
  · have hscaled : pay * day * whole ≤ amount * elapsed * whole :=
      calc pay * day * whole = pay * whole * day := by ring
        _ ≤ ratio * amount * day := by gcongr
        _ = ratio * day * amount := by ring
        _ ≤ elapsed * whole * amount := by gcongr
        _ = amount * elapsed * whole := by ring
    exact le_of_mul_le_mul_right hscaled hwhole
  · calc amount * elapsed * whole = elapsed * whole * amount := by ring
      _ ≤ (ratio + 1) * day * amount := by gcongr
      _ = ratio * amount * day + amount * day := by ring
      _ < (pay + 1) * whole * day + amount * day := by gcongr
      _ = (pay + 1) * day * whole + amount * day := by ring

/-- Pay is proportional to the elapsed time exactly where no product outgrows its word. -/
theorem exists_paysElapsed_iff (hlow : 0 ≤ dailyPay) (hhigh : dailyPay < 2 ^ 63) :
    (∃ pay, db.PaysElapsed headTime dailyPay pay) ↔ db.PayFits headTime dailyPay := by
  constructor
  · rintro ⟨pay, hpay⟩
    have hratio := hpay.ratio
    refine ⟨paymentRatio_eq_iff.mp hratio, ?_⟩
    rw [← hratio]
    exact ((periodPay_eq_ok (db.paymentRatio_lt headTime) hlow hhigh).mp hpay.paid).1
  · rintro ⟨hseconds, hproduct⟩
    have hratio := paymentRatio_eq_iff.mpr hseconds
    rw [← hratio] at hproduct
    have hfloor : (db.paymentRatio headTime : Int) * dailySeconds ≤
        db.passedTimeSeconds headTime * blurt100Percent := by
      rw [hratio]
      exact_mod_cast Nat.div_mul_le_self _ _
    have hceil : (db.passedTimeSeconds headTime : Int) * blurt100Percent <
        (db.paymentRatio headTime + 1) * dailySeconds := by
      rw [hratio]
      exact_mod_cast Nat.lt_mul_of_div_lt (Nat.lt_succ_self _) (by decide)
    have hpay := Int.ediv_mul_le (db.paymentRatio headTime * dailyPay)
      (show (blurt100Percent : Int) ≠ 0 by decide)
    have hpay' := Int.lt_ediv_add_one_mul_self (db.paymentRatio headTime * dailyPay)
      (show (0 : Int) < blurt100Percent by decide)
    have hbounds := pay_bounds hlow (by decide) (by decide) hfloor hceil hpay hpay'
    refine ⟨db.paymentRatio headTime * dailyPay / blurt100Percent, hratio, ?_, hbounds.1,
      hbounds.2, ?_⟩
    · exact (periodPay_eq_ok (db.paymentRatio_lt headTime) hlow hhigh).mpr ⟨hproduct, rfl⟩
    · intro db' headTime' pay' hearlier hpaid
      have hle : db'.paymentRatio headTime' ≤ db.paymentRatio headTime := by
        have hproducts := Nat.mul_le_mul_right blurt100Percent hearlier
        rw [hratio, paymentRatio_eq_iff.mpr (hproducts.trans_lt hseconds)]
        exact Nat.div_le_div_right hproducts
      obtain ⟨-, rfl⟩ := (periodPay_eq_ok (db'.paymentRatio_lt headTime') hlow hhigh).mp hpaid
      apply Int.ediv_le_ediv (by decide)
      gcongr

end Database

namespace Sample

/-- A chain whose proposals were paid at `time`. -/
def paidAt (time : Nat) : Database :=
  { twoProposals with dgp := { time, currentWitness := "initminer", lastBudgetTime := time } }

theorem hourly_paysElapsed : ∃ pay, (paidAt 2000000).PaysElapsed 2003600 1000 pay :=
  (Database.exists_paysElapsed_iff (by decide) (by decide)).mpr ⟨by decide, by decide⟩

/-- After a pause of 429498 seconds the ratio is computed as zero, and nothing is paid for almost
five days. -/
theorem afterPause_not_paysElapsed :
    Database.periodPay ((paidAt 2000000).paymentRatio 2429498) 1000 = .ok 0 ∧
      ¬ ∃ pay, (paidAt 2000000).PaysElapsed 2429498 1000 pay := by
  refine ⟨by decide, ?_⟩
  rintro ⟨pay, hpay⟩
  exact absurd hpay.ratio (by decide)

end Sample

end Ledger

end Blurt
