import Blurt.Foundation.LeakyPool
import Blurt.Ledger.ResourceDynamics

/-! # The pools of free accounts

For every budget and decay that pass the checks the dynamics of a pool can be set up, and a pool
moves towards the size at which its decay balances its budget.
-/

namespace Blurt

namespace Ledger

open Outcome

theorem rdValidateUserParams_eq_ok {budget : Int} {decay : Nat} {u : Unit} :
    rdValidateUserParams budget decay = .ok u ↔
      (blurtRdMinBudget ≤ budget ∧ budget ≤ blurtRdMaxBudget) ∧
        blurtRdMinDecay ≤ decay ∧ decay ≤ blurtRdMaxDecay := by
  simp only [rdValidateUserParams, bind_eq_ok, ensure_eq_ok, exists_const]
  tauto

namespace RdDynamicsParams

variable {rd : RdDynamicsParams} {budget : Int} {decay : Nat}

/-- The decay of a pool, where no intermediate result is cut off. -/
theorem computePoolDecay_eq (hdecay : rd.decayPerTimeUnit < 2 ^ 32)
    (hshift : rd.decayPerTimeUnitDenomShift = blurtRdDecayDenomShift) {pool : Nat}
    (hpool : pool < 2 ^ 63) :
    rd.computePoolDecay pool = .ok (LeakyPool.leak rd.decayPerTimeUnit (2 ^ 36) pool : Nat) := by
  have hproduct : rd.decayPerTimeUnit * pool < 2 ^ 32 * 2 ^ 63 :=
    Nat.mul_lt_mul'' hdecay hpool
  have hle : LeakyPool.leak rd.decayPerTimeUnit (2 ^ 36) pool ≤ pool :=
    LeakyPool.leak_le (by omega) pool
  have hdecayOf : rd.decayOf pool = .ok (LeakyPool.leak rd.decayPerTimeUnit (2 ^ 36) pool) := by
    simp only [decayOf, UInt128.wrap, hshift, blurtRdDecayDenomShift]
    rw [Nat.mod_eq_of_lt (by omega)]
    change (do
      let result ← UInt128.toUInt64 (LeakyPool.leak rd.decayPerTimeUnit (2 ^ 36) pool)
      return min result pool) = _
    rw [UInt128.toUInt64, if_pos (by omega), ok_bind, Nat.min_eq_left hle]
    rfl
  simp only [computePoolDecay, Int.natAbs_natCast, hdecayOf, ok_bind]
  rw [if_neg (by omega)]
  rfl

/-- The pool of a budget and a decay, as the code divides. -/
theorem divide_eq {amount : Nat} (hhigh : amount < 2 ^ 31) (hmin : 2 ^ 6 ≤ decay)
    (hmax : decay < 2 ^ 32) :
    UInt128.div (UInt128.wrap (UInt128.wrap (UInt128.ofInt (amount : Int) *
      2 ^ blurtRdDecayDenomShift) + (decay + (2 ^ 32 - 1)) % 2 ^ 32)) decay =
        .ok (LeakyPool.balance decay (2 ^ 36) amount) := by
  have hscaled : UInt128.wrap (UInt128.ofInt (amount : Int) * 2 ^ blurtRdDecayDenomShift) =
      amount * 2 ^ 36 := by
    rw [UInt128.ofInt_natCast (by omega), UInt128.wrap, blurtRdDecayDenomShift,
      Nat.mod_eq_of_lt (by omega)]
  have hround : (decay + (2 ^ 32 - 1)) % 2 ^ 32 = decay - 1 := by omega
  have hwrap : UInt128.wrap (amount * 2 ^ 36 + (decay - 1)) = amount * 2 ^ 36 + (decay - 1) := by
    rw [UInt128.wrap, Nat.mod_eq_of_lt (by omega)]
  rw [hscaled, hround, hwrap, UInt128.div_eq_ok, LeakyPool.balance]
  exact ⟨by omega, rfl⟩

/-- The pool of a budget and a decay is far below the limits of its type. -/
theorem balance_lt {amount : Nat} (hhigh : amount < 2 ^ 31) (hmin : 2 ^ 6 ≤ decay)
    (hmax : decay < 2 ^ 32) : LeakyPool.balance decay (2 ^ 36) amount < 2 ^ 62 := by
  rw [LeakyPool.balance, Nat.div_lt_iff_lt_mul (by omega)]
  have hscale : 2 ^ 62 * 2 ^ 6 ≤ 2 ^ 62 * decay := Nat.mul_le_mul_left _ hmin
  omega

/-- Parameters that hold a pool in balance with its budget. -/
structure Balances (rd : RdDynamicsParams) (amount decay : Nat) : Prop where
  inflow : rd.budgetPerTimeUnit = amount
  rate : rd.decayPerTimeUnit = decay
  shift : rd.decayPerTimeUnitDenomShift = blurtRdDecayDenomShift
  poolEq : rd.poolEq = LeakyPool.balance decay (2 ^ 36) amount
  maxPoolSize : rd.maxPoolSize = rd.poolEq

/-- The decay reaches the budget from the balanced pool on. -/
theorem Balances.checkPoolEq {amount : Nat} (h : rd.Balances amount decay) (hpos : 0 < decay)
    (hmax : decay < 2 ^ 32) {pool : Nat} (hpool : pool < 2 ^ 63) :
    rd.checkPoolEq (wrapInt64 pool) = .ok (decide (rd.poolEq ≤ pool)) := by
  have hiff := @LeakyPool.inflow_le_leak_iff decay (2 ^ 36) amount hpos (by decide) pool
  rw [wrapInt64_of_lt (by omega) (by omega), RdDynamicsParams.checkPoolEq,
    computePoolDecay_eq (by rw [h.rate]; exact hmax) h.shift hpool, ok_bind, h.inflow, h.rate,
    h.poolEq]
  simp only [Int.ofNat_le, hiff]
  rfl

/-- The parameters can be set up for every budget and decay that pass the checks. -/
theorem setup_ok (hlow : 1 ≤ budget) (hhigh : budget < 2 ^ 31) (hmin : 2 ^ 6 ≤ decay)
    (hmax : decay < 2 ^ 32) :
    ∃ updated, rd.setup budget decay = .ok updated ∧ updated.Balances budget.toNat decay := by
  obtain ⟨amount, rfl⟩ := Int.eq_ofNat_of_zero_le (by omega : 0 ≤ budget)
  have hdivide := @divide_eq decay amount (by omega) hmin hmax
  have hlt := @balance_lt decay amount (by omega) hmin hmax
  have hpos := @LeakyPool.balance_pos decay (2 ^ 36) amount (by omega) (by decide) (by omega)
  let updated : RdDynamicsParams := { rd with
    resourceUnit := blurtAccountSubsidyPrecision.toNat
    budgetPerTimeUnit := amount
    decayPerTimeUnit := decay
    poolEq := LeakyPool.balance decay (2 ^ 36) amount
    decayPerTimeUnitDenomShift := blurtRdDecayDenomShift
    maxPoolSize := LeakyPool.balance decay (2 ^ 36) amount }
  have hbalances : updated.Balances amount decay := ⟨rfl, rfl, rfl, rfl, rfl⟩
  have hfits : UInt128.toUInt64 (LeakyPool.balance decay (2 ^ 36) amount) =
      .ok (LeakyPool.balance decay (2 ^ 36) amount) :=
    UInt128.toUInt64_eq_ok.mpr ⟨by omega, rfl⟩
  have hbalanced : updated.checkPoolEq (wrapInt64 updated.poolEq) = .ok true := by
    rw [hbalances.checkPoolEq (by omega) hmax (by rw [hbalances.poolEq]; omega), decide_eq_true le_rfl]
  have hsmaller : updated.checkPoolEq (wrapInt64 ((updated.poolEq : Int) - 1)) = .ok false := by
    have hcast : (updated.poolEq : Int) - 1 = (updated.poolEq - 1 : Nat) := by
      rw [hbalances.poolEq]
      omega
    rw [hcast, hbalances.checkPoolEq (by omega) hmax (by rw [hbalances.poolEq]; omega),
      decide_eq_false (by rw [hbalances.poolEq]; omega)]
  refine ⟨updated, ?_, hbalances⟩
  unfold setup
  dsimp only
  rw [hdivide, ok_bind, hfits, ok_bind]
  change (do
    let balanced ← updated.checkPoolEq (wrapInt64 updated.poolEq)
    Outcome.ensure (balanced = true) _
    let smaller ← updated.checkPoolEq (wrapInt64 ((updated.poolEq : Int) - 1))
    Outcome.ensure (smaller = false) _
    return updated) = _
  rw [hbalanced, ok_bind, hsmaller]
  rfl

/-! ## Steps of a pool -/

/-- A pool after one time unit. -/
def next (rd : RdDynamicsParams) (amount minDecay pool : Nat) : Nat :=
  min (pool + amount - max (LeakyPool.leak rd.decayPerTimeUnit (2 ^ 36) pool) minDecay) rd.poolEq

theorem wrapInt64_of_inInt64 {value : Int} (h : InInt64 value) : wrapInt64 value = value := by
  unfold InInt64 at h
  unfold wrapInt64
  rw [Int.bmod_eq_of_le] <;> omega

theorem Balances.apply_eq {amount minDecay pool : Nat} (h : rd.Balances amount decay)
    (hhigh : amount < 2 ^ 31) (hmin : 2 ^ 6 ≤ decay) (hmax : decay < 2 ^ 32)
    (hminDecay : minDecay < 2 ^ 63) (hpool : pool ≤ rd.maxPoolSize) :
    ({ rd with minDecay := minDecay } : RdDynamicsParams).apply pool =
      .ok (rd.next amount minDecay pool : Nat) := by
  have hlt := @balance_lt decay amount hhigh hmin hmax
  rw [← h.poolEq] at hlt
  rw [h.maxPoolSize] at hpool
  have hle : LeakyPool.leak rd.decayPerTimeUnit (2 ^ 36) pool ≤ pool :=
    LeakyPool.leak_le (by rw [h.rate]; omega) pool
  have hcompute := @computePoolDecay_eq { rd with minDecay := minDecay } (by rw [h.rate]; exact hmax)
    h.shift pool (by omega)
  rw [RdDynamicsParams.apply, hcompute, ok_bind]
  dsimp only
  have hsize : wrapInt64 rd.poolEq = rd.poolEq := wrapInt64_of_lt (by omega) (by omega)
  rw [h.inflow, h.maxPoolSize, hsize, wrapInt64_of_inInt64, next]
  · apply congrArg Except.ok
    generalize LeakyPool.leak rd.decayPerTimeUnit (2 ^ 36) pool = leaked at hle ⊢
    omega
  · unfold InInt64
    omega

/-- A larger pool stays at least as large. -/
theorem next_mono (hdecay : rd.decayPerTimeUnit ≤ 2 ^ 36) (amount minDecay : Nat) :
    Monotone (rd.next amount minDecay) := by
  intro p q h
  obtain ⟨more, rfl⟩ := Nat.exists_eq_add_of_le h
  have hleak := LeakyPool.leak_add_le hdecay (by decide) p more
  unfold next
  omega

/-- Without a least decay a pool up to its balance does not shrink. -/
theorem Balances.le_next {amount pool : Nat} (h : rd.Balances amount decay) (hpos : 0 < decay)
    (hmax : decay < 2 ^ 32) (hpool : pool ≤ rd.poolEq) : pool ≤ rd.next amount 0 pool := by
  have hleak := @LeakyPool.leak_le_inflow decay (2 ^ 36) amount hpos (by omega) pool (h.poolEq ▸ hpool)
  rw [← h.rate] at hleak
  unfold next
  omega

/-- The dynamics of a pool of a budget. -/
structure Consistent (rd : RdDynamicsParams) (budget : Int) : Prop where
  fits : rd.poolEq < 2 ^ 63
  size : rd.maxPoolSize = rd.poolEq
  /-- The decay reaches the budget from `pool_eq` on. -/
  least : ∀ pool : Nat, pool < 2 ^ 63 → ∃ decay, rd.computePoolDecay pool = .ok decay ∧
    (budget ≤ decay ↔ rd.poolEq ≤ pool)
  /-- Whatever the least decay is, a pool stays in its range. -/
  range : ∀ minDecay : Nat, minDecay < 2 ^ 63 → ∀ pool : Nat, pool ≤ rd.maxPoolSize →
    ∃ later : Nat, ({ rd with minDecay := minDecay } : RdDynamicsParams).apply pool = .ok later ∧
      later ≤ rd.maxPoolSize ∧ (minDecay = 0 → pool ≤ later)
  mono : ∀ minDecay : Nat, minDecay < 2 ^ 63 → ∀ p q : Nat, p ≤ q → q ≤ rd.maxPoolSize →
    ∀ later more, ({ rd with minDecay := minDecay } : RdDynamicsParams).apply p = .ok later →
      ({ rd with minDecay := minDecay } : RdDynamicsParams).apply q = .ok more → later ≤ more

theorem Balances.consistent {amount : Nat} (h : rd.Balances amount decay) (hhigh : amount < 2 ^ 31)
    (hmin : 2 ^ 6 ≤ decay) (hmax : decay < 2 ^ 32) : rd.Consistent amount where
  fits := by
    have hlt := @balance_lt decay amount hhigh hmin hmax
    rw [h.poolEq]
    omega
  size := h.maxPoolSize
  least pool hpool := by
    refine ⟨_, computePoolDecay_eq (by rw [h.rate]; exact hmax) h.shift hpool, ?_⟩
    rw [Int.ofNat_le, h.rate, h.poolEq]
    exact LeakyPool.inflow_le_leak_iff (by omega) (by decide) pool
  range minDecay hminDecay pool hpool := by
    refine ⟨_, h.apply_eq hhigh hmin hmax hminDecay hpool, ?_, ?_⟩
    · rw [h.maxPoolSize]
      exact min_le_right _ _
    · rintro rfl
      exact h.le_next (by omega) hmax (h.maxPoolSize ▸ hpool)
  mono minDecay hminDecay p q hpq hq later more hlater hmore := by
    rw [h.apply_eq hhigh hmin hmax hminDecay (hpq.trans hq)] at hlater
    rw [h.apply_eq hhigh hmin hmax hminDecay hq] at hmore
    cases hlater
    cases hmore
    exact Int.ofNat_le.mpr (next_mono (by rw [h.rate]; omega) amount minDecay hpq)

end RdDynamicsParams

theorem witnessSubsidyBudget_range {budget : Int} (hlow : blurtRdMinBudget ≤ budget)
    (hhigh : budget ≤ blurtRdMaxBudget) :
    1 ≤ witnessSubsidyBudget budget ∧ witnessSubsidyBudget budget < 2 ^ 31 := by
  simp only [blurtRdMinBudget, blurtRdMaxBudget] at hlow hhigh
  rw [witnessSubsidyBudget, blurtWitnessSubsidyBudgetPercent, blurt100Percent,
    Int.tdiv_eq_ediv_of_nonneg (by omega)]
  omega

theorem witnessSubsidyDecay_range {decay : Nat} (hlow : blurtRdMinDecay ≤ decay) :
    2 ^ 6 ≤ witnessSubsidyDecay decay ∧ witnessSubsidyDecay decay < 2 ^ 32 := by
  simp only [blurtRdMinDecay] at hlow
  simp only [witnessSubsidyDecay, blurtWitnessSubsidyDecayPercent, blurtMaxWitnesses,
    blurt100Percent]
  omega

/-- For every budget and decay that pass the checks, both pools can be set up, and their dynamics
are consistent. -/
theorem rdSetup_consistent {budget : Int} {decay : Nat} (rd : RdDynamicsParams)
    (h : rdValidateUserParams budget decay = .ok ()) :
    (∃ updated, rd.setup budget decay = .ok updated ∧ updated.Consistent budget) ∧
      ∃ updated, rd.setup (witnessSubsidyBudget budget) (witnessSubsidyDecay decay) = .ok updated ∧
        updated.Consistent (witnessSubsidyBudget budget) := by
  obtain ⟨⟨hbudgetMin, hbudgetMax⟩, hdecayMin, hdecayMax⟩ := rdValidateUserParams_eq_ok.mp h
  have hset : ∀ {budget : Int} {decay : Nat}, 1 ≤ budget → budget < 2 ^ 31 → 2 ^ 6 ≤ decay →
      decay < 2 ^ 32 → ∃ updated, rd.setup budget decay = .ok updated ∧ updated.Consistent budget := by
    intro budget decay hlow hhigh hmin hmax
    obtain ⟨updated, hupdated, hbalances⟩ := RdDynamicsParams.setup_ok hlow hhigh hmin hmax
    have hconsistent := hbalances.consistent (by omega) hmin hmax
    rw [Int.toNat_of_nonneg (by omega)] at hconsistent
    exact ⟨updated, hupdated, hconsistent⟩
  obtain ⟨hwitnessMin, hwitnessMax⟩ := witnessSubsidyBudget_range hbudgetMin hbudgetMax
  obtain ⟨hfastMin, hfastMax⟩ := witnessSubsidyDecay_range hdecayMin
  refine ⟨hset hbudgetMin ?_ hdecayMin ?_, hset hwitnessMin hwitnessMax hfastMin hfastMax⟩
  · simp only [blurtRdMaxBudget] at hbudgetMax
    omega
  · simp only [blurtRdMaxDecay] at hdecayMax
    omega

namespace Sample

/-- The defaults of a witness. -/
theorem default_consistent : ∃ updated,
    ({} : RdDynamicsParams).setup 797 347321 = .ok updated ∧ updated.Consistent 797 :=
  (rdSetup_consistent {} (by decide)).1

end Sample

end Ledger

end Blurt
