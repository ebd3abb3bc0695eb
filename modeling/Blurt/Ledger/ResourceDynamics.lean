import Blurt.Ledger.Database

/-! # Resource dynamics

The pools of free accounts of `util/rd.cpp`: every block adds a budget to a pool, from which
a fraction decays.
-/

namespace Blurt

namespace Ledger

/-- `rd_validate_user_params` -/
def rdValidateUserParams (budgetPerTimeUnit : Int) (decayPerTimeUnit : Nat) : Except String Unit := do
  Outcome.ensure (blurtRdMinBudget ≤ budgetPerTimeUnit)
    "user_params.budget_per_time_unit >= BLURT_RD_MIN_BUDGET"
  Outcome.ensure (budgetPerTimeUnit ≤ blurtRdMaxBudget)
    "user_params.budget_per_time_unit <= BLURT_RD_MAX_BUDGET"
  Outcome.ensure (blurtRdMinDecay ≤ decayPerTimeUnit)
    "user_params.decay_per_time_unit >= BLURT_RD_MIN_DECAY"
  Outcome.ensure (decayPerTimeUnit ≤ blurtRdMaxDecay)
    "user_params.decay_per_time_unit <= BLURT_RD_MAX_DECAY"

namespace RdDynamicsParams

/-- `rd_compute_pool_decay` of a pool that is not negative, for one time unit. -/
def decayOf (rd : RdDynamicsParams) (currentPool : Nat) : Except String Nat := do
  let decayAmount := UInt128.wrap (rd.decayPerTimeUnit * currentPool)
  let result ← UInt128.toUInt64 (decayAmount / 2 ^ rd.decayPerTimeUnitDenomShift)
  return min result currentPool

/-- `rd_compute_pool_decay`, for one time unit. -/
def computePoolDecay (rd : RdDynamicsParams) (currentPool : Int) : Except String Int := do
  let decay ← rd.decayOf currentPool.natAbs
  return if currentPool < 0 then -decay else decay

/-- `rd_apply` -/
def apply (rd : RdDynamicsParams) (pool : Int) : Except String Int := do
  let poolDecay ← rd.computePoolDecay pool
  let decay := max poolDecay rd.minDecay
  let newPool := wrapInt64 (pool + rd.budgetPerTimeUnit - decay)
  return max (min newPool (wrapInt64 rd.maxPoolSize)) 0

/-- `check_pool_eq` -/
def checkPoolEq (rd : RdDynamicsParams) (pool : Int) : Except String Bool := do
  let decay ← rd.computePoolDecay pool
  return rd.budgetPerTimeUnit ≤ decay

/-- `rd_setup_dynamics_params` of the pools of free accounts, which leaves `min_decay`. -/
def setup (rd : RdDynamicsParams) (budgetPerTimeUnit : Int) (decayPerTimeUnit : Nat) :
    Except String RdDynamicsParams := do
  let scaled := UInt128.wrap (UInt128.ofInt budgetPerTimeUnit * 2 ^ blurtRdDecayDenomShift)
  let rounded := UInt128.wrap (scaled + (decayPerTimeUnit + (2 ^ 32 - 1)) % 2 ^ 32)
  let quotient ← UInt128.div rounded decayPerTimeUnit
  let poolEq ← UInt128.toUInt64 quotient
  let updated := { rd with
    resourceUnit := blurtAccountSubsidyPrecision.toNat
    budgetPerTimeUnit, decayPerTimeUnit, poolEq
    decayPerTimeUnitDenomShift := blurtRdDecayDenomShift
    maxPoolSize := poolEq }
  let balanced ← updated.checkPoolEq (wrapInt64 poolEq)
  Outcome.ensure (balanced = true) "check_pool_eq( dparams_out, dparams_out.pool_eq )"
  let smaller ← updated.checkPoolEq (wrapInt64 ((poolEq : Int) - 1))
  Outcome.ensure (smaller = false) "!check_pool_eq( dparams_out, dparams_out.pool_eq-1 )"
  return updated

end RdDynamicsParams

/-- The budget of the pool of each witness, given the budget of the global pool. -/
def witnessSubsidyBudget (budget : Int) : Int :=
  min ((budget * blurtWitnessSubsidyBudgetPercent).tdiv blurt100Percent) (2 ^ 31 - 1)

/-- The decay of the pool of each witness, given the decay of the global pool. -/
def witnessSubsidyDecay (decay : Nat) : Nat :=
  min (decay * blurtWitnessSubsidyDecayPercent / blurt100Percent) (2 ^ 32 - 1)

namespace Database

/-- `process_subsidized_accounts` -/
def processSubsidizedAccounts (db : Database) : Except String Database := do
  let availableAccountSubsidies ← db.wso.accountSubsidyRd.apply db.dgp.availableAccountSubsidies
  let updated := { db with dgp := { db.dgp with availableAccountSubsidies } }
  let currentWitness ← db.getWitness db.dgp.currentWitness
  if currentWitness.schedule = .elected then
    let availableWitnessAccountSubsidies ←
      db.wso.accountSubsidyWitnessRd.apply currentWitness.availableWitnessAccountSubsidies
    let witness := { currentWitness with availableWitnessAccountSubsidies }
    return { updated with witnesses := updated.witnesses.set db.dgp.currentWitness witness }
  else
    return updated

end Database

end Ledger

end Blurt
