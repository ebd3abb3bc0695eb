import Blurt.Ledger.Votes

/-! # Creating vesting shares

`create_vesting2` converts liquid to shares at the price before the call. Shares that
are a reward stay outside of the vesting fund until they are claimed.
-/

namespace Blurt

namespace Ledger

namespace Database

/-- `create_vesting2` with `to_reward_balance`. -/
def createRewardVesting (db : Database) (toAccount : AccountName) (liquid : Asset) :
    Except String (Database × Int) := do
  Outcome.ensure (liquid.symbol = .blurt) "liquid.symbol == BLURT_SYMBOL"
  let price ← db.dgp.getRewardVestingSharePrice
  let newVesting ← price.toVests liquid.amount
  let rewarded ← db.adjustRewardBalance toAccount liquid newVesting
  let pendingRewardedVestingShares ←
    shareType (rewarded.dgp.pendingRewardedVestingShares + newVesting)
  let pendingRewardedVestingBlurt ←
    shareType (rewarded.dgp.pendingRewardedVestingBlurt + liquid.amount)
  let dgp := { rewarded.dgp with pendingRewardedVestingShares, pendingRewardedVestingBlurt }
  return ({ rewarded with dgp }, newVesting)

/-- `create_vesting2` without `to_reward_balance`. -/
def createVesting (db : Database) (toAccount : AccountName) (liquid : Asset) :
    Except String (Database × Int) := do
  Outcome.ensure (liquid.symbol = .blurt) "liquid.symbol == BLURT_SYMBOL"
  let price ← db.dgp.getVestingSharePrice
  let newVesting ← price.toVests liquid.amount
  let charged ← db.modifyAccount toAccount fun a => updateManabar db.dgp a newVesting
  let credited ← charged.adjustBalance toAccount (.vests newVesting)
  let totalVestingFundBlurt ← shareType (credited.dgp.totalVestingFundBlurt + liquid.amount)
  let totalVestingShares ← shareType (credited.dgp.totalVestingShares + newVesting)
  let dgp := { credited.dgp with totalVestingFundBlurt, totalVestingShares }
  let voted ← { credited with dgp }.adjustProxiedWitnessVotes toAccount newVesting
  return (voted, newVesting)

end Database

end Ledger

end Blurt
