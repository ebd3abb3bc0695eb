import Blurt.Ledger.TransferEvaluators

/-! # Evaluators of vesting shares

Powering up and down, withdrawal routes, claims of rewards and delegations.
-/

namespace Blurt

namespace Ledger

namespace Database

/-- `transfer_to_vesting_evaluator::do_apply` -/
def transferToVesting (db : Database) (o : TransferToVestingOperation) :
    Except String Database := do
  let _ ← db.getAccount o.fromAccount
  let toAccount := if o.toAccount ≠ "" then o.toAccount else o.fromAccount
  let _ ← db.getAccount toAccount
  Outcome.ensure (o.amount.symbol = .blurt) "Can only transfer BLURT_SYMBOL"
  let debited ← db.adjustBalance o.fromAccount (-o.amount)
  let (vested, _) ← debited.createVesting toAccount o.amount
  return vested

/-- The withdraw rate that `withdraw_vesting_evaluator` sets. -/
def withdrawRate (amount intervals : Int) : Int :=
  let rate := amount.tdiv intervals
  let positive := if rate = 0 then 1 else rate
  if positive * intervals < amount then positive + 1 else positive

/-- `withdraw_vesting_evaluator::do_apply` -/
def withdrawVesting (db : Database) (o : WithdrawVestingOperation) : Except String Database := do
  let account ← db.getAccount o.account
  Outcome.ensure (0 ≤ o.vestingShares.amount)
    "Cannot withdraw negative VESTS. account: ${account}, vests:${vests}"
  Outcome.ensure (0 ≤ account.vestingShares)
    "Account does not have sufficient Steem Power for withdraw."
  Outcome.ensure (o.vestingShares.symbol = .vests) "a.symbol == b.symbol"
  Outcome.ensure (o.vestingShares.amount ≤ account.vestingShares - account.delegatedVestingShares)
    "Account does not have sufficient Steem Power for withdraw."
  if o.vestingShares.amount = 0 then
    Outcome.ensure (account.vestingWithdrawRate ≠ 0)
      "This operation would not change the vesting withdraw rate."
    db.modifyAccount o.account fun a => .ok { a with
      vestingWithdrawRate := 0
      nextVestingWithdrawal := maximumTime
      toWithdraw := 0
      withdrawn := 0 }
  else
    let intervals := if db.hasHardfork 5 then blurtVestingWithdrawIntervalsHf5
      else blurtVestingWithdrawIntervals
    let rate := withdrawRate o.vestingShares.amount intervals
    Outcome.ensure (account.vestingWithdrawRate ≠ rate)
      "This operation would not change the vesting withdraw rate."
    db.modifyAccount o.account fun a => .ok { a with
      vestingWithdrawRate := rate
      nextVestingWithdrawal := addSeconds db.dgp.time blurtVestingWithdrawIntervalSeconds
      toWithdraw := o.vestingShares.amount
      withdrawn := 0 }

/-- The routes of an account, in the order of `by_withdraw_route`. -/
def routesOf (db : Database) (a : AccountName) : List (AccountName × WithdrawVestingRoute) :=
  (db.withdrawRoutes.ordered (fun x y => x.1.2 ≤ y.1.2) fun key _ => key.1 = a).map
    fun row => (row.1.2, row.2)

/-- `set_withdraw_vesting_route_evaluator::do_apply` -/
def setWithdrawVestingRoute (db : Database) (o : SetWithdrawVestingRouteOperation) :
    Except String Database := do
  let fromAccount ← db.getAccount o.fromAccount
  let _ ← db.getAccount o.toAccount
  let key := (o.fromAccount, o.toAccount)
  Outcome.ensure (o.toAccount ≠ blurtTreasuryAccount) "Cannot withdraw vesting to ${s}"
  let route : WithdrawVestingRoute := { percent := o.percent, autoVest := o.autoVest }
  let routed ←
    if (db.withdrawRoutes.find? key).isNone then do
      Outcome.ensure (o.percent ≠ 0) "Cannot create a 0% destination."
      Outcome.ensure (fromAccount.withdrawRoutes < blurtMaxWithdrawRoutes)
        "Account already has the maximum number of routes."
      let created := { db with withdrawRoutes := db.withdrawRoutes.set key route }
      created.modifyAccount o.fromAccount fun a =>
        .ok { a with withdrawRoutes := increment 16 a.withdrawRoutes }
    else if o.percent = 0 then
      let removed := { db with withdrawRoutes := db.withdrawRoutes.remove key }
      removed.modifyAccount o.fromAccount fun a =>
        .ok { a with withdrawRoutes := decrement 16 a.withdrawRoutes }
    else
      .ok { db with withdrawRoutes := db.withdrawRoutes.set key route }
  let totalPercent := (((routed.routesOf o.fromAccount).map (·.2.percent)).sum) % 2 ^ 16
  Outcome.ensure (totalPercent ≤ blurt100Percent)
    "More than 100% of vesting withdrawals allocated to destinations."
  return routed

/-- The part of `reward_vesting_blurt` that goes with a claim of `rewardVests`. -/
def rewardVestingToMove (a : Account) (rewardVests : Int) : Except String Int := do
  if rewardVests = a.rewardVestingBalance then
    return a.rewardVestingBlurt
  else
    let product := UInt128.wrap
      (UInt128.ofInt rewardVests * UInt128.ofInt a.rewardVestingBlurt)
    let quotient ← UInt128.div product (UInt128.ofInt a.rewardVestingBalance)
    let moved ← UInt128.toUInt64 quotient
    return wrapInt64 moved

/-- `claim_reward_balance_evaluator::do_apply` -/
def claimRewardBalance (db : Database) (op : ClaimRewardBalanceOperation) :
    Except String Database := do
  let acnt ← db.getAccount op.account
  Outcome.ensure (op.rewardBlurt.symbol = .blurt) "a.symbol == b.symbol"
  Outcome.ensure (op.rewardBlurt.amount ≤ acnt.rewardBlurtBalance)
    "Cannot claim that much BLURT. Claim: ${c} Actual: ${a}"
  Outcome.ensure (op.rewardVests.symbol = .vests) "a.symbol == b.symbol"
  Outcome.ensure (op.rewardVests.amount ≤ acnt.rewardVestingBalance)
    "Cannot claim that much VESTS. Claim: ${c} Actual: ${a}"
  let vests := op.rewardVests.amount
  let moved ← rewardVestingToMove acnt vests
  let debited ← db.adjustRewardBalance op.account (-op.rewardBlurt) 0
  let credited ← debited.adjustBalance op.account op.rewardBlurt
  let claimed ← credited.modifyAccount op.account fun a => do
    let charged ← updateManabar credited.dgp a vests
    let vestingShares ← shareType (charged.vestingShares + vests)
    let rewardVestingBalance ← shareType (charged.rewardVestingBalance - vests)
    let rewardVestingBlurt ← shareType (charged.rewardVestingBlurt - moved)
    return { charged with vestingShares, rewardVestingBalance, rewardVestingBlurt }
  let totalVestingShares ← shareType (claimed.dgp.totalVestingShares + vests)
  let totalVestingFundBlurt ← shareType (claimed.dgp.totalVestingFundBlurt + moved)
  let pendingRewardedVestingShares ←
    shareType (claimed.dgp.pendingRewardedVestingShares - vests)
  let pendingRewardedVestingBlurt ← shareType (claimed.dgp.pendingRewardedVestingBlurt - moved)
  let dgp := { claimed.dgp with
    totalVestingShares, totalVestingFundBlurt
    pendingRewardedVestingShares, pendingRewardedVestingBlurt }
  { claimed with dgp }.adjustProxiedWitnessVotes op.account vests

/-- The shares that `delegate_vesting_shares_evaluator` lets an account delegate, from its
state before and after the update of its mana. -/
def availableShares (maxMana : Int) (delegator : Account) : Int :=
  let available := min delegator.votingManabar.currentMana
    (maxMana - delegator.receivedVestingShares)
  let remaining := delegator.toWithdraw - delegator.withdrawn
  if delegator.nextVestingWithdrawal < maximumTime ∧
      delegator.vestingWithdrawRate < remaining then
    available + (min delegator.vestingWithdrawRate remaining - remaining)
  else
    available

/-- A mana bar after the return of a delegation, at least 0. -/
def Account.losesMana (a : Account) (delta : Int) : Account :=
  { a with votingManabar := a.votingManabar.useMana delta }

/-- `delegate_vesting_shares_evaluator::do_apply` -/
def delegateVestingShares (db : Database) (op : DelegateVestingSharesOperation) :
    Except String Database := do
  let delegator ← db.getAccount op.delegator
  let _ ← db.getAccount op.delegatee
  let key := (op.delegator, op.delegatee)
  let maxMana := getEffectiveVestingShares delegator
  let charged ← db.modifyAccount op.delegator fun a => updateManabar db.dgp a 0
  let updated ← charged.getAccount op.delegator
  let available := availableShares maxMana updated
  Outcome.ensure (op.vestingShares.symbol = .vests) "a.symbol == b.symbol"
  let amount := op.vestingShares.amount
  let fee := db.wso.medianProps.accountCreationFee.amount
  let price ← db.dgp.getVestingSharePrice
  let minDelegation ← price.toVests (fee.tdiv 3)
  let minUpdate ← price.toVests (fee.tdiv 30)
  match db.delegations.find? key with
  | none => do
      Outcome.ensure (amount ≤ available)
        "Account ${acc} does not have enough mana to delegate. required: ${r} available: ${a}"
      Outcome.ensure (minDelegation ≤ amount) "Account must delegate a minimum of ${v}"
      let delegation : VestingDelegation :=
        { vestingShares := amount, minDelegationTime := db.dgp.time }
      let created := { charged with delegations := charged.delegations.set key delegation }
      let lent ← created.modifyAccount op.delegator fun a => do
        let delegatedVestingShares ← shareType (a.delegatedVestingShares + amount)
        return { a with
          delegatedVestingShares, votingManabar := a.votingManabar.useMana amount }
      lent.modifyAccount op.delegatee fun a => do
        let filled ← updateManabar db.dgp a amount
        let receivedVestingShares ← shareType (filled.receivedVestingShares + amount)
        return { filled with receivedVestingShares }
  | some delegation =>
      if delegation.vestingShares ≤ amount then do
        let delta := amount - delegation.vestingShares
        Outcome.ensure (minUpdate ≤ delta)
          "Steem Power increase is not enough of a difference. min_update: ${min}"
        Outcome.ensure (delta ≤ available)
          "Account ${acc} does not have enough mana to delegate. required: ${r} available: ${a}"
        let lent ← charged.modifyAccount op.delegator fun a => do
          let delegatedVestingShares ← shareType (a.delegatedVestingShares + delta)
          return { a with
            delegatedVestingShares, votingManabar := a.votingManabar.useMana delta }
        let received ← lent.modifyAccount op.delegatee fun a => do
          let filled ← updateManabar db.dgp a delta
          let receivedVestingShares ← shareType (filled.receivedVestingShares + delta)
          return { filled with receivedVestingShares }
        let grown := { delegation with vestingShares := amount }
        return { received with delegations := received.delegations.set key grown }
      else do
        let delta := delegation.vestingShares - amount
        if 0 < amount then
          Outcome.ensure (minUpdate ≤ delta)
            "Steem Power decrease is not enough of a difference. min_update: ${min}"
          Outcome.ensure (minDelegation ≤ amount)
            "Delegation must be removed or leave minimum delegation amount of ${v}"
        else
          Outcome.ensure (0 < delegation.vestingShares)
            "Delegation would set vesting_shares to zero, but it is already zero"
        let expiration : VestingDelegationExpiration :=
          { delegator := op.delegator
            vestingShares := delta
            expiration := max (addSeconds db.dgp.time db.dgp.delegationReturnPeriod)
              delegation.minDelegationTime }
        let expiring := { charged with
          delegationExpirations :=
            charged.delegationExpirations.set charged.nextIds.delegationExpiration expiration
          nextIds := { charged.nextIds with
            delegationExpiration := charged.nextIds.delegationExpiration + 1 } }
        let returned ← expiring.modifyAccount op.delegatee fun a => do
          let charged ← updateManabar db.dgp a 0
          let receivedVestingShares ← shareType (charged.receivedVestingShares - delta)
          return Account.losesMana { charged with receivedVestingShares } delta
        if 0 < amount then
          let shrunk := { delegation with vestingShares := amount }
          return { returned with delegations := returned.delegations.set key shrunk }
        else
          return { returned with delegations := returned.delegations.remove key }

end Database

end Ledger

end Blurt
