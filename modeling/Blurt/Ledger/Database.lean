import Blurt.Ledger.Objects

/-! # Access to the object database

The lookups of `database`, its balance adjustments and the price of vesting shares.
-/

namespace Blurt

namespace Ledger

namespace GlobalProperties

/-- `get_vesting_share_price` -/
def getVestingSharePrice (dgp : GlobalProperties) : Except String Price :=
  if dgp.totalVestingFundBlurt = 0 ∨ dgp.totalVestingShares = 0 then
    Price.make 1000000 1000
  else
    Price.make dgp.totalVestingShares dgp.totalVestingFundBlurt

/-- `get_reward_vesting_share_price` -/
def getRewardVestingSharePrice (dgp : GlobalProperties) : Except String Price := do
  if dgp.pendingRewardedVestingShares = 0 ∨ dgp.pendingRewardedVestingBlurt = 0 then
    dgp.getVestingSharePrice
  else
    let vests ← shareType (dgp.totalVestingShares + dgp.pendingRewardedVestingShares)
    let blurt ← shareType (dgp.totalVestingFundBlurt + dgp.pendingRewardedVestingBlurt)
    Price.make vests blurt

end GlobalProperties

/-! ## Mana -/

/-- `fc::signed_sat_add` -/
def signedSatAdd (a b : Int) : Int := max (-2 ^ 63) (min (2 ^ 63 - 1) (a + b))

/-- `fc::signed_sat_sub` -/
def signedSatSub (a b : Int) : Int := max (-2 ^ 63) (min (2 ^ 63 - 1) (a - b))

namespace Manabar

/-- `manabar::regenerate_mana` -/
def regenerateMana (bar : Manabar) (maxMana : Int) (regenTime now : Nat) :
    Except String Manabar := do
  Outcome.ensure (0 ≤ maxMana) "max_mana >= 0"
  Outcome.ensure (bar.lastUpdateTime ≤ now) "now >= last_update_time"
  if maxMana ≤ bar.currentMana then
    return { currentMana := maxMana, lastUpdateTime := now }
  let dt := min (now - bar.lastUpdateTime) regenTime
  let uRegen := maxMana * dt / regenTime
  Outcome.ensure (uRegen < 2 ^ 63) "u_regen <= std::numeric_limits< int64_t >::max()"
  return { currentMana := min (signedSatAdd bar.currentMana uRegen) maxMana
           lastUpdateTime := now }

/-- `manabar::use_mana`, with its default minimum of 0. -/
def useMana (bar : Manabar) (manaUsed : Int) : Manabar :=
  { bar with currentMana := max (signedSatSub bar.currentMana manaUsed) 0 }

end Manabar

/-- `get_effective_vesting_shares` -/
def getEffectiveVestingShares (a : Account) : Int :=
  let shares := a.vestingShares + a.receivedVestingShares - a.delegatedVestingShares
  if a.nextVestingWithdrawal ≠ maximumTime then
    wrapInt64 (shares - min a.vestingWithdrawRate (a.toWithdraw - a.withdrawn))
  else
    wrapInt64 shares

/-- `update_manabar` -/
def updateManabar (dgp : GlobalProperties) (a : Account) (newMana : Int) :
    Except String Account := do
  let bar ← a.votingManabar.regenerateMana (getEffectiveVestingShares a)
    blurtVotingManaRegenerationSeconds dgp.time
  return { a with votingManabar := bar.useMana (-newMana) }

namespace Database

/-! ## Lookups -/

/-- `has_hardfork` -/
def hasHardfork (db : Database) (hardfork : Nat) : Bool :=
  hardfork < db.processedHardforks.length

/-- `get_hardfork` -/
def getHardfork (db : Database) : Nat := db.processedHardforks.length - 1

/-- `get_account` -/
def getAccount (db : Database) (name : AccountName) : Except String Account :=
  Outcome.require (db.accounts.find? name) "unknown key"

/-- `get_witness` -/
def getWitness (db : Database) (name : AccountName) : Except String Witness :=
  Outcome.require (db.witnesses.find? name) "unknown key"

/-- `modify` of an account. -/
def modifyAccount (db : Database) (name : AccountName)
    (update : Account → Except String Account) : Except String Database := do
  let account ← db.getAccount name
  let updated ← update account
  return { db with accounts := db.accounts.set name updated }

/-- `find_comment`, with the id of the comment. -/
def findComment (db : Database) (author : AccountName) (permlink : Text) :
    Option (Nat × Comment) :=
  db.comments.rows.find? fun row => row.2.author = author && row.2.permlink = permlink

/-- `get_comment`, with the id of the comment. -/
def getComment (db : Database) (author : AccountName) (permlink : Text) :
    Except String (Nat × Comment) :=
  Outcome.require (db.findComment author permlink) "unknown key"

/-- `get( comment_id )` -/
def getCommentById (db : Database) (id : Nat) : Except String Comment :=
  Outcome.require (db.comments.find? id) "unknown key"

def setComment (db : Database) (id : Nat) (c : Comment) : Database :=
  { db with comments := db.comments.set id c }

/-- `get_reward_fund`, with the id of the fund. -/
def getRewardFund (db : Database) : Except String (Nat × RewardFund) :=
  Outcome.require (db.rewardFunds.rows.find? fun row => row.2.name = blurtPostRewardFundName)
    "unknown key"

/-- `get_escrow` -/
def getEscrow (db : Database) (name : AccountName) (escrowId : Nat) : Except String Escrow :=
  Outcome.require (db.escrows.find? (name, escrowId)) "unknown key"

/-- `get_savings_withdraw` -/
def getSavingsWithdraw (db : Database) (owner : AccountName) (requestId : Nat) :
    Except String SavingsWithdraw :=
  Outcome.require (db.savingsWithdraws.find? (owner, requestId)) "unknown key"

/-! ## Balances -/

/-- `get_balance` -/
def getBalance (a : Account) (symbol : AssetSymbol) : Except String Int :=
  if symbol = .blurt then .ok a.balance else .error "Invalid symbol: ${s}"

/-- `modify_balance`, which is only called with `check_balance`. -/
def modifyBalance (db : Database) (name : AccountName) (delta : Asset) :
    Except String Database :=
  db.modifyAccount name fun a => do
    if delta.symbol = .blurt then
      let balance ← shareType (a.balance + delta.amount)
      Outcome.ensure (0 ≤ balance) "Insufficient BLURT funds"
      return { a with balance }
    else if delta.symbol = .vests then
      let vestingShares ← shareType (a.vestingShares + delta.amount)
      Outcome.ensure (0 ≤ vestingShares) "Insufficient VESTS funds"
      return { a with vestingShares }
    else
      .error "invalid symbol"

/-- `adjust_balance` -/
def adjustBalance (db : Database) (name : AccountName) (delta : Asset) :
    Except String Database := do
  let account ← db.getAccount name
  if delta.amount < 0 then
    let available ← getBalance account delta.symbol
    Outcome.ensure (-delta.amount ≤ available)
      "Account ${acc} does not have sufficient funds for balance adjustment. Required: ${r}, Available: ${a}"
  db.modifyBalance name delta

/-- `adjust_savings_balance` -/
def adjustSavingsBalance (db : Database) (name : AccountName) (delta : Asset) :
    Except String Database :=
  db.modifyAccount name fun a => do
    Outcome.ensure (delta.symbol = .blurt) "invalid symbol"
    let savingsBalance ← shareType (a.savingsBalance + delta.amount)
    Outcome.ensure (0 ≤ savingsBalance) "Insufficient savings BLURT funds"
    return { a with savingsBalance }

/-- `modify_reward_balance` of a value in BLURT, which is only called with
`check_balance`. -/
def modifyRewardBalance (db : Database) (name : AccountName) (valueDelta shareDelta : Int) :
    Except String Database :=
  db.modifyAccount name fun a => do
    if shareDelta = 0 then
      let rewardBlurtBalance ← shareType (a.rewardBlurtBalance + valueDelta)
      Outcome.ensure (0 ≤ rewardBlurtBalance) "Insufficient reward BLURT funds"
      return { a with rewardBlurtBalance }
    else
      let rewardVestingBlurt ← shareType (a.rewardVestingBlurt + valueDelta)
      let rewardVestingBalance ← shareType (a.rewardVestingBalance + shareDelta)
      Outcome.ensure (0 ≤ rewardVestingBalance) "Insufficient reward VESTS funds"
      return { a with rewardVestingBlurt, rewardVestingBalance }

/-- `adjust_reward_balance` -/
def adjustRewardBalance (db : Database) (name : AccountName) (valueDelta : Asset)
    (shareDelta : Int) : Except String Database := do
  Outcome.ensure (!valueDelta.symbol.isVesting)
    "value_delta.symbol.is_vesting() == false && share_delta.symbol.is_vesting()"
  Outcome.ensure (valueDelta.symbol = .blurt) "invalid symbol"
  db.modifyRewardBalance name valueDelta.amount shareDelta

/-- `get_savings_balance` -/
def getSavingsBalance (a : Account) (symbol : AssetSymbol) : Except String Int :=
  if symbol = .blurt then .ok a.savingsBalance else .error "invalid symbol"

/-- `adjust_supply` of an amount in BLURT. -/
def adjustSupply (db : Database) (delta : Int) (adjustVesting : Bool) :
    Except String Database := do
  let adjusts := adjustVesting && blurtBlocksPerDay * 7 ≤ db.dgp.headBlockNumber
  let newVesting ← shareType (if adjusts ∧ 0 < delta then delta * 9 else 0)
  let currentSupply ← shareType (db.dgp.currentSupply + (delta + newVesting))
  let totalVestingFundBlurt ← shareType (db.dgp.totalVestingFundBlurt + newVesting)
  Outcome.ensure (0 ≤ currentSupply) "props.current_supply.amount.value >= 0"
  return { db with dgp := { db.dgp with currentSupply, totalVestingFundBlurt } }

end Database

end Ledger

end Blurt
