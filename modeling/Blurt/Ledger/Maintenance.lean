import Blurt.Ledger.TransferEvaluators
import Blurt.Ledger.VestingEvaluators

/-! # Block maintenance

What `_apply_block` does to the ledger after the transactions of a block, except for
payouts of comments and of proposals. A loop that removes the first object of an index
until it is not due is an `Outcome.drain`; each of its turns removes an object, so one
turn more than there are objects is enough.
-/

namespace Blurt

namespace Ledger

namespace Database

/-! ## Expired delegations -/

/-- The first row of `vesting_delegation_expiration_index` by expiration, if it is due. -/
def nextExpiration (db : Database) : Option (Nat × VestingDelegationExpiration) :=
  (db.delegationExpirations.due
    (fun x y => x.2.expiration < y.2.expiration ∨ x.2.expiration = y.2.expiration ∧ x.1 ≤ y.1)
    fun row => row.2.expiration < db.dgp.time).head?

/-- The body of the loop of `clear_expired_delegations`. -/
def clearExpiredDelegation (db : Database) (row : Nat × VestingDelegationExpiration) :
    Except String Database := do
  let returned ← db.modifyAccount row.2.delegator fun a => do
    let filled ← updateManabar db.dgp a row.2.vestingShares
    let delegatedVestingShares ← shareType (filled.delegatedVestingShares - row.2.vestingShares)
    return { filled with delegatedVestingShares }
  return { returned with delegationExpirations := returned.delegationExpirations.remove row.1 }

/-- `clear_expired_delegations` -/
def clearExpiredDelegations (db : Database) : Except String Database :=
  Outcome.drain nextExpiration clearExpiredDelegation
    (db.delegationExpirations.rows.length + 1) db

/-! ## The null account -/

/-- `amount` where it is positive. -/
def ifPositive (amount value : Int) : Int := if 0 < amount then value else 0

/-- The second half of `clear_null_account_balance`, which takes everything from the null
account. -/
def burnNullAccount (db : Database) (vestingValue : Int) : Except String Database := do
  let null ← db.getAccount blurtNullAccount
  let spent ← if 0 < null.balance then
      db.adjustBalance blurtNullAccount (-.blurt null.balance)
    else .ok db
  let saved ← if 0 < null.savingsBalance then
      spent.adjustSavingsBalance blurtNullAccount (-.blurt null.savingsBalance)
    else .ok spent
  let unvested ← if 0 < null.vestingShares then do
      let totalVestingShares ← shareType (saved.dgp.totalVestingShares - null.vestingShares)
      let totalVestingFundBlurt ← shareType (saved.dgp.totalVestingFundBlurt - vestingValue)
      let dgp := { saved.dgp with totalVestingShares, totalVestingFundBlurt }
      { saved with dgp }.modifyAccount blurtNullAccount fun a => .ok { a with vestingShares := 0 }
    else .ok saved
  let unrewarded ← if 0 < null.rewardBlurtBalance then
      unvested.adjustRewardBalance blurtNullAccount (-.blurt null.rewardBlurtBalance) 0
    else .ok unvested
  if 0 < null.rewardVestingBalance then do
    let pendingRewardedVestingShares ←
      shareType (unrewarded.dgp.pendingRewardedVestingShares - null.rewardVestingBalance)
    let pendingRewardedVestingBlurt ←
      shareType (unrewarded.dgp.pendingRewardedVestingBlurt - null.rewardVestingBlurt)
    let dgp := { unrewarded.dgp with pendingRewardedVestingShares, pendingRewardedVestingBlurt }
    { unrewarded with dgp }.modifyAccount blurtNullAccount fun a =>
      .ok { a with rewardVestingBlurt := 0, rewardVestingBalance := 0 }
  else .ok unrewarded

/-- `clear_null_account_balance` -/
def clearNullAccountBalance (db : Database) : Except String Database := do
  let null ← db.getAccount blurtNullAccount
  let vestingValue ← if 0 < null.vestingShares then do
      let price ← db.dgp.getVestingSharePrice
      price.toBlurt null.vestingShares
    else .ok 0
  let liquid ← shareType
    (ifPositive null.balance null.balance + ifPositive null.savingsBalance null.savingsBalance)
  let staked ← shareType (liquid + vestingValue)
  let rewarded ← shareType (staked + ifPositive null.rewardBlurtBalance null.rewardBlurtBalance)
  let totalBlurt ← shareType (rewarded + ifPositive null.rewardVestingBalance null.rewardVestingBlurt)
  let totalVests ← shareType (ifPositive null.vestingShares null.vestingShares +
    ifPositive null.rewardVestingBalance null.rewardVestingBalance)
  if totalBlurt = 0 ∧ totalVests = 0 then
    return db
  else
    let burned ← db.burnNullAccount vestingValue
    if 0 < totalBlurt then burned.adjustSupply (-totalBlurt) false else return burned

/-! ## The regent -/

/-- `process_regent_account` -/
def processRegentAccount (db : Database) : Except String Database := do
  if db.dgp.headBlockNumber % regentPeriodBlocks = 0 then
    let step ← safeDiv db.dgp.regentInitVestingShares 24
    let newRegentVestingShares ← shareType (db.dgp.regentVestingShares - step)
    if 0 ≤ newRegentVestingShares then
      let delta ← shareType (db.dgp.regentVestingShares - newRegentVestingShares)
      let _ ← db.getAccount blurtRegentAccount
      let dgp := { db.dgp with regentVestingShares := newRegentVestingShares }
      { db with dgp }.adjustProxiedWitnessVotes blurtRegentAccount (-delta)
    else return db
  else return db

/-! ## Power-downs -/

/-- What an account withdraws in its next week. -/
def weeklyWithdrawal (a : Account) : Except String Int := do
  let remaining ← shareType (a.toWithdraw - a.withdrawn)
  if remaining < a.vestingWithdrawRate then
    let rest ← safeMod a.toWithdraw a.vestingWithdrawRate
    return min a.vestingShares rest
  else
    return min a.vestingShares a.vestingWithdrawRate

/-- The part of a withdrawal that goes to a route. -/
def routedShares (toWithdraw : Int) (percent : Nat) : Except String Int := do
  let share ← UInt128.div (UInt128.wrap (UInt128.ofInt toWithdraw * percent)) blurt100Percent
  let deposit ← UInt128.toUInt64 share
  return wrapInt64 deposit

/-- A turn of the loop over the routes that stay vested, with the shares deposited so far. -/
def depositVests (toWithdraw : Int) (state : Database × Int)
    (route : AccountName × WithdrawVestingRoute) : Except String (Database × Int) := do
  if route.2.autoVest then
    let toDeposit ← routedShares toWithdraw route.2.percent
    let deposited ← shareType (state.2 + toDeposit)
    if 0 < toDeposit then
      let credited ← state.1.modifyAccount route.1 fun a => do
        let vestingShares ← shareType (a.vestingShares + toDeposit)
        return { a with vestingShares }
      let voted ← credited.adjustProxiedWitnessVotes route.1 toDeposit
      return (voted, deposited)
    else return (state.1, deposited)
  else return state

/-- The vesting fund pays `blurt` for `shares`. -/
def redeemShares (db : Database) (blurt shares : Int) : Except String Database := do
  let totalVestingFundBlurt ← shareType (db.dgp.totalVestingFundBlurt - blurt)
  let totalVestingShares ← shareType (db.dgp.totalVestingShares - shares)
  return { db with dgp := { db.dgp with totalVestingFundBlurt, totalVestingShares } }

/-- `to` liquid of the balance of an account. -/
def creditBalance (db : Database) (name : AccountName) (amount : Int) : Except String Database :=
  db.modifyAccount name fun a => do
    let balance ← shareType (a.balance + amount)
    return { a with balance }

/-- A turn of the loop over the routes that are paid in liquid, with the shares deposited
and the liquid converted so far. -/
def depositLiquid (toWithdraw : Int) (state : Database × Int × Int)
    (route : AccountName × WithdrawVestingRoute) : Except String (Database × Int × Int) := do
  if route.2.autoVest then return state
  else
    let _ ← state.1.getAccount route.1
    let toDeposit ← routedShares toWithdraw route.2.percent
    let deposited ← shareType (state.2.1 + toDeposit)
    let price ← state.1.dgp.getVestingSharePrice
    let converted ← price.toBlurt toDeposit
    let total ← shareType (state.2.2 + converted)
    if 0 < toDeposit then
      let credited ← state.1.creditBalance route.1 converted
      let redeemed ← credited.redeemShares converted toDeposit
      return (redeemed, deposited, total)
    else return (state.1, deposited, total)

/-- The account after a week of its power-down. -/
def Account.withdrawWeek (a : Account) (toWithdraw converted : Int) : Except String Account := do
  let vestingShares ← shareType (a.vestingShares - toWithdraw)
  let balance ← shareType (a.balance + converted)
  let withdrawn ← shareType (a.withdrawn + toWithdraw)
  if a.toWithdraw ≤ withdrawn ∨ vestingShares = 0 then
    return { a with
      vestingShares, balance, withdrawn
      vestingWithdrawRate := 0
      nextVestingWithdrawal := maximumTime }
  else
    return { a with
      vestingShares, balance, withdrawn
      nextVestingWithdrawal :=
        addSeconds a.nextVestingWithdrawal blurtVestingWithdrawIntervalSeconds }

/-- The body of the loop of `process_vesting_withdrawals`. -/
def processVestingWithdrawal (db : Database) (name : AccountName) : Except String Database := do
  let fromAccount ← db.getAccount name
  let toWithdraw ← weeklyWithdrawal fromAccount
  let (vested, depositedAsVests) ←
    Outcome.forEach (depositVests toWithdraw) (db, 0) (db.routesOf name)
  let (paid, depositedAsBlurt, _) ←
    Outcome.forEach (depositLiquid toWithdraw) (vested, 0, 0) (vested.routesOf name)
  let afterBlurt ← shareType (toWithdraw - depositedAsBlurt)
  let toConvert ← shareType (afterBlurt - depositedAsVests)
  Outcome.ensure (0 ≤ toConvert) "Deposited more vests than were supposed to be withdrawn"
  let price ← paid.dgp.getVestingSharePrice
  let converted ← price.toBlurt toConvert
  let withdrawn ← paid.modifyAccount name fun a => Account.withdrawWeek a toWithdraw converted
  let redeemed ← withdrawn.redeemShares converted toConvert
  if 0 < toWithdraw then redeemed.adjustProxiedWitnessVotes name (-toWithdraw)
  else return redeemed

/-- The first account in the order of `by_next_vesting_withdrawal` that `keep` admits. -/
def firstWithdrawal (db : Database) (keep : Nat → AccountName → Bool) : Option AccountName :=
  ((db.accounts.ordered
    (fun x y => x.2.nextVestingWithdrawal < y.2.nextVestingWithdrawal ∨
      x.2.nextVestingWithdrawal = y.2.nextVestingWithdrawal ∧ x.1 ≤ y.1)
    fun name a => keep a.nextVestingWithdrawal name).head?).map (·.1)

/-- The iterator of `process_vesting_withdrawals` after the account at `name`. -/
def withdrawalAfter (db : Database) (next : Nat) (name : AccountName) : Option AccountName :=
  db.firstWithdrawal fun otherNext other => next < otherNext || (next = otherNext && name < other)

/-- The account at the iterator, if its withdrawal is due. -/
def dueWithdrawal (state : Database × Option AccountName) : Option AccountName :=
  state.2.filter fun name => (state.1.accounts.find? name).any fun a =>
    a.nextVestingWithdrawal ≤ state.1.dgp.time

/-- A turn of the loop of `process_vesting_withdrawals`. The iterator moves on first, so an
account whose next week is due as well comes again. -/
def withdrawalTurn (state : Database × Option AccountName) (name : AccountName) :
    Except String (Database × Option AccountName) := do
  let a ← state.1.getAccount name
  let after := state.1.withdrawalAfter a.nextVestingWithdrawal name
  let processed ← state.1.processVestingWithdrawal name
  return (processed, after)

/-- `process_vesting_withdrawals`. The iterator only moves forward, over dates that are not
after the head block. -/
def processVestingWithdrawals (db : Database) : Except String Database := do
  let (processed, _) ← Outcome.drain dueWithdrawal withdrawalTurn
    (db.accounts.rows.length * (db.dgp.time + 1) + 1) (db, db.firstWithdrawal fun _ _ => true)
  return processed

/-! ## Inflation -/

/-- A turn of the loop of `pay_reward_funds`, with the rewards used so far. -/
def payRewardFund (reward : Int) (state : Database × Int) (row : Nat × RewardFund) :
    Except String (Database × Int) := do
  let product ← shareType (reward * row.2.percentContentRewards)
  let r ← safeDiv product blurt100Percent
  let rewardBalance ← shareType (row.2.rewardBalance + r)
  let usedRewards ← shareType (state.2 + r)
  Outcome.ensure (usedRewards ≤ reward) "used_rewards <= reward"
  let rewardFunds := state.1.rewardFunds.set row.1 { row.2 with rewardBalance }
  return ({ state.1 with rewardFunds }, usedRewards)

/-- `pay_reward_funds` -/
def payRewardFunds (db : Database) (reward : Int) : Except String (Database × Int) :=
  Outcome.forEach (payRewardFund reward) (db, 0)
    (db.rewardFunds.ordered (fun x y => x.1 ≤ y.1) fun _ _ => true)

/-- `percent` of an amount. -/
def percentOf (amount : Int) (percent : Nat) : Except String Int := do
  let product ← shareType (amount * percent)
  safeDiv product blurt100Percent

/-- The rate of inflation at a block. -/
def inflationRate (headBlockNumber : Nat) : Int :=
  max (blurtInflationRateStartPercent - headBlockNumber / blurtInflationNarrowingPeriod)
    blurtInflationRateStopPercent

/-- The reward of the witness of a block, from the share of all witnesses. -/
def witnessReward (wso : WitnessSchedule) (schedule : WitnessScheduleType) (share : Int) :
    Except String Int := do
  let all ← shareType (share * blurtMaxWitnesses)
  let weighted ← shareType (all * match schedule with
    | .timeshare => wso.timeshareWeight
    | .elected => wso.electedWeight
    | .none => 1)
  safeDiv weighted wso.witnessPayNormalizationFactor

/-- `process_funds` -/
def processFunds (db : Database) : Except String Database := do
  let product ← shareType (db.dgp.currentSupply * inflationRate db.dgp.headBlockNumber)
  let newBlurt ← safeDiv product (blurt100Percent * blurtBlocksPerYear)
  let contentShare ← percentOf newBlurt db.dgp.contentRewardPercent
  let (funded, contentReward) ← db.payRewardFunds contentShare
  let vestingReward ← percentOf newBlurt db.dgp.vestingRewardPercent
  let spsFund ← percentOf newBlurt db.dgp.spsFundPercent
  let afterContent ← shareType (newBlurt - contentReward)
  let afterVesting ← shareType (afterContent - vestingReward)
  let witnessShare ← shareType (afterVesting - spsFund)
  let cwit ← funded.getWitness db.dgp.currentWitness
  let witnessReward ← witnessReward db.wso cwit.schedule witnessShare
  let treasured ← if spsFund ≠ 0 then funded.adjustBalance blurtTreasuryAccount (.blurt spsFund)
    else .ok funded
  let content ← shareType (contentReward + vestingReward)
  let issued ← shareType (content + witnessReward)
  let totalVestingFundBlurt ← shareType (treasured.dgp.totalVestingFundBlurt + vestingReward)
  let all ← shareType (issued + spsFund)
  let currentSupply ← shareType (treasured.dgp.currentSupply + all)
  let spsIntervalLedger ← shareType (treasured.dgp.spsIntervalLedger + spsFund)
  let dgp := { treasured.dgp with totalVestingFundBlurt, currentSupply, spsIntervalLedger }
  let (vested, _) ← { treasured with dgp }.createVesting db.dgp.currentWitness (.blurt witnessReward)
  return vested

/-! ## Savings and escrows -/

/-- The first row of `savings_withdraw_index` by completion, if it is due. -/
def nextSavingsWithdraw (db : Database) : Option ((AccountName × Nat) × SavingsWithdraw) :=
  (db.savingsWithdraws.due
    (fun x y => x.2.complete < y.2.complete ∨ x.2.complete = y.2.complete ∧
      (x.1.1 < y.1.1 ∨ x.1.1 = y.1.1 ∧ x.1.2 ≤ y.1.2))
    fun row => row.2.complete ≤ db.dgp.time).head?

/-- The body of the loop of `process_savings_withdraws`. -/
def processSavingsWithdraw (db : Database) (row : (AccountName × Nat) × SavingsWithdraw) :
    Except String Database := do
  let paid ← db.adjustBalance row.2.toAccount row.2.amount
  let counted ← paid.modifyAccount row.1.1 fun a =>
    .ok { a with savingsWithdrawRequests := decrement 8 a.savingsWithdrawRequests }
  return { counted with savingsWithdraws := counted.savingsWithdraws.remove row.1 }

/-- `process_savings_withdraws` -/
def processSavingsWithdraws (db : Database) : Except String Database :=
  Outcome.drain nextSavingsWithdraw processSavingsWithdraw
    (db.savingsWithdraws.rows.length + 1) db

/-- The first row of `escrow_index` by ratification deadline, if it is due. Approved escrows
come last in that order. -/
def nextEscrow (db : Database) : Option ((AccountName × Nat) × Escrow) :=
  (db.escrows.due
    (fun x y => (!x.2.isApproved && y.2.isApproved) ∨ x.2.isApproved = y.2.isApproved ∧
      (x.2.ratificationDeadline < y.2.ratificationDeadline ∨
        x.2.ratificationDeadline = y.2.ratificationDeadline ∧ x.2.id ≤ y.2.id))
    fun row => !row.2.isApproved && row.2.ratificationDeadline ≤ db.dgp.time).head?

/-- The body of the loop of `expire_escrow_ratification`. -/
def expireEscrow (db : Database) (row : (AccountName × Nat) × Escrow) : Except String Database := do
  let refunded ← db.adjustBalance row.1.1 row.2.blurtBalance
  let returned ← refunded.adjustBalance row.1.1 row.2.pendingFee
  return { returned with escrows := returned.escrows.remove row.1 }

/-- `expire_escrow_ratification` -/
def expireEscrowRatification (db : Database) : Except String Database :=
  Outcome.drain nextEscrow expireEscrow (db.escrows.rows.length + 1) db

/-! ## Voting rights -/

/-- The first row of `decline_voting_rights_request_index` by effective date, if it is due. -/
def nextDecline (db : Database) : Option (AccountName × Nat) :=
  (db.declineRequests.due (fun x y => x.2 < y.2 ∨ x.2 = y.2 ∧ x.1 ≤ y.1)
    fun row => row.2 ≤ db.dgp.time).head?

/-- The body of the loop of `process_decline_voting_rights`. -/
def processDecline (db : Database) (row : AccountName × Nat) : Except String Database := do
  let account ← db.getAccount row.1
  let delta := account.voteDelta
  let withdrawn ← db.adjustProxiedWitnessVotesArray row.1 fun i => -delta i
  let cleared ← withdrawn.clearWitnessVotes row.1
  let declined ← cleared.modifyAccount row.1 fun a =>
    .ok { a with canVote := false, proxy := blurtProxyToSelfAccount }
  return { declined with declineRequests := declined.declineRequests.remove row.1 }

/-- `process_decline_voting_rights` -/
def processDeclineVotingRights (db : Database) : Except String Database :=
  Outcome.drain nextDecline processDecline (db.declineRequests.rows.length + 1) db

/-! ## Account recovery -/

/-- The first row of `account_recovery_request_index` by expiration, if it is due. -/
def nextRecoveryRequest (db : Database) : Option (AccountName × AccountRecoveryRequest) :=
  (db.recoveryRequests.due
    (fun x y => x.2.expires < y.2.expires ∨ x.2.expires = y.2.expires ∧ x.1 ≤ y.1)
    fun row => row.2.expires ≤ db.dgp.time).head?

/-- The first row of `owner_authority_history_index` by id, if it is too old. -/
def nextOwnerHistory (db : Database) : Option (Nat × OwnerAuthorityHistory) :=
  (db.ownerHistory.due (fun x y => x.1 ≤ y.1)
    fun row => addSeconds row.2.lastValidTime blurtOwnerAuthRecoveryPeriod < db.dgp.time).head?

/-- The first row of `change_recovery_account_request_index` by effective date, if it is due. -/
def nextRecoveryChange (db : Database) : Option (AccountName × ChangeRecoveryAccountRequest) :=
  (db.changeRecoveryRequests.due
    (fun x y => x.2.effectiveOn < y.2.effectiveOn ∨ x.2.effectiveOn = y.2.effectiveOn ∧ x.1 ≤ y.1)
    fun row => row.2.effectiveOn ≤ db.dgp.time).head?

/-- The body of the loop over the changes of recovery accounts. -/
def applyRecoveryChange (db : Database) (row : AccountName × ChangeRecoveryAccountRequest) :
    Except String Database := do
  let changed ← db.modifyAccount row.1 fun a =>
    .ok { a with recoveryAccount := row.2.recoveryAccount }
  return { changed with changeRecoveryRequests := changed.changeRecoveryRequests.remove row.1 }

/-- `account_recovery_processing` -/
def accountRecoveryProcessing (db : Database) : Except String Database := do
  let requested ← Outcome.drain nextRecoveryRequest
    (fun db row => .ok { db with recoveryRequests := db.recoveryRequests.remove row.1 })
    (db.recoveryRequests.rows.length + 1) db
  let historic ← Outcome.drain nextOwnerHistory
    (fun db row => .ok { db with ownerHistory := db.ownerHistory.remove row.1 })
    (requested.ownerHistory.rows.length + 1) requested
  Outcome.drain nextRecoveryChange applyRecoveryChange
    (historic.changeRecoveryRequests.rows.length + 1) historic

end Database

end Ledger

end Blurt
