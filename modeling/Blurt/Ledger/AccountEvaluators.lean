import Blurt.Ledger.Vesting

/-! # Evaluators of accounts, their authorities and their recovery -/

namespace Blurt

namespace Ledger

/-- What the evaluators ask of the node that runs them. -/
structure Host where
  rules : TextRules
  /-- `database::is_producing` -/
  isProducing : Bool
  /-- `database::is_pending_tx` -/
  isPendingTx : Bool
  /-- `fc::raw::pack_size( o )` -/
  packSize : WitnessSetPropertiesOperation → Nat
  /-- `database::get_sps_remove_threshold` -/
  spsRemoveThreshold : Int
  /-- Whether the node is built with `CLEAR_VOTES`, as it is by default. -/
  clearVotes : Bool := true

namespace Database

/-- `verify_authority_accounts_exist` -/
def verifyAuthorityAccountsExist (db : Database) (auth : Authority) : Except String Unit :=
  Outcome.ensure (∀ aw ∈ auth.accountAuths, (db.accounts.find? aw.1).isSome)
    "New ${ac} authority on account ${aa} references non-existing account ${aref}"

/-- The objects that `account_create_evaluator` creates for a new account. -/
def createAccount (db : Database) (creator name : AccountName) (memoKey : PublicKey)
    (owner active posting : Authority) : Except String Database := do
  Outcome.ensure ((db.accounts.find? name).isNone) "could not insert object"
  let account : Account :=
    { id := db.nextIds.account
      memoKey
      created := db.dgp.time
      votingManabar := { lastUpdateTime := db.dgp.time }
      mined := false
      recoveryAccount := if creator ≠ blurtTempAccount then creator else "" }
  return { db with
    accounts := db.accounts.set name account
    authorities := db.authorities.set name { owner, active, posting }
    nextIds := { db.nextIds with account := db.nextIds.account + 1 } }

/-- `account_create_evaluator::do_apply` -/
def accountCreate (db : Database) (o : AccountCreateOperation) : Except String Database := do
  let _ ← db.getAccount o.creator
  Outcome.ensure (o.fee = db.wso.medianProps.accountCreationFee)
    "Must pay the exact account creation fee. paid: ${p} fee: ${f}"
  db.verifyAuthorityAccountsExist o.owner
  db.verifyAuthorityAccountsExist o.active
  db.verifyAuthorityAccountsExist o.posting
  let debited ← db.adjustBalance o.creator (-o.fee)
  let burned ← debited.adjustBalance blurtNullAccount o.fee
  burned.createAccount o.creator o.newAccountName o.memoKey o.owner o.active o.posting

/-- `update_owner_authority` -/
def updateOwnerAuthority (db : Database) (account : AccountName) (owner : Authority) :
    Except String Database := do
  let auth ← Outcome.require (db.authorities.find? account) "unknown key"
  let hist : OwnerAuthorityHistory :=
    { account, previousOwnerAuthority := auth.owner, lastValidTime := db.dgp.time }
  return { db with
    ownerHistory := db.ownerHistory.set db.nextIds.ownerHistory hist
    authorities := db.authorities.set account
      { auth with owner, lastOwnerUpdate := db.dgp.time }
    nextIds := { db.nextIds with ownerHistory := db.nextIds.ownerHistory + 1 } }

/-- A check of an optional authority. -/
def forAuthority (auth : Option Authority) (check : Authority → Except String Unit) :
    Except String Unit :=
  match auth with
  | some a => check a
  | none => .ok ()

/-- `account_update_evaluator::do_apply` -/
def accountUpdate (db : Database) (o : AccountUpdateOperation) : Except String Database := do
  Outcome.ensure (o.account ≠ blurtTempAccount) "Cannot update temp account."
  forAuthority o.posting Authority.validate
  let _ ← db.getAccount o.account
  let accountAuth ← Outcome.require (db.authorities.find? o.account) "unknown key"
  forAuthority o.owner validateAuthSize
  forAuthority o.active validateAuthSize
  forAuthority o.posting validateAuthSize
  let owned ← match o.owner with
    | some owner => do
        Outcome.ensure
          (blurtOwnerUpdateLimit < (db.dgp.time : Int) - accountAuth.lastOwnerUpdate)
          "Owner authority can only be updated once an hour."
        db.verifyAuthorityAccountsExist owner
        db.updateOwnerAuthority o.account owner
    | none => .ok db
  forAuthority o.active owned.verifyAuthorityAccountsExist
  forAuthority o.posting owned.verifyAuthorityAccountsExist
  let updated ← owned.modifyAccount o.account fun acc => .ok { acc with
    memoKey := if o.memoKey.all (· = 0) then acc.memoKey else o.memoKey.getD acc.memoKey
    lastAccountUpdate := db.dgp.time }
  let auth ← Outcome.require (updated.authorities.find? o.account) "unknown key"
  return { updated with authorities := updated.authorities.set o.account { auth with
    active := o.active.getD auth.active
    posting := o.posting.getD auth.posting } }

/-- The subsidy of a free account that `claim_account_evaluator` takes from the witness
of the block. -/
def spendWitnessSubsidy (db : Database) : Except String Database := do
  let witness ← db.getWitness db.dgp.currentWitness
  Outcome.ensure (witness.schedule = .elected)
    "Subsidized accounts can only be claimed by elected witnesses. current_witness:${w} witness_type:${t}"
  Outcome.ensure (blurtAccountSubsidyPrecision ≤ witness.availableWitnessAccountSubsidies)
    "Witness ${w} does not have enough subsidized accounts to claim"
  return { db with witnesses := db.witnesses.set db.dgp.currentWitness { witness with
    availableWitnessAccountSubsidies :=
      witness.availableWitnessAccountSubsidies - blurtAccountSubsidyPrecision } }

/-- `claim_account_evaluator::do_apply` -/
def claimAccount (host : Host) (db : Database) (o : ClaimAccountOperation) :
    Except String Database := do
  Outcome.ensure (!db.hasHardfork 2) "This operation is disable since hard fork 2."
  let creator ← db.getAccount o.creator
  Outcome.ensure (o.fee.symbol = .blurt) "a.symbol == b.symbol"
  Outcome.ensure (o.fee.amount ≤ creator.balance) "Insufficient balance to create account."
  let paid ←
    if o.fee.amount = 0 then do
      let subsidized ← if host.isPendingTx then .ok db else db.spendWitnessSubsidy
      Outcome.ensure
        (blurtAccountSubsidyPrecision ≤ subsidized.dgp.availableAccountSubsidies)
        "There are not enough subsidized accounts to claim"
      .ok { subsidized with dgp := { subsidized.dgp with
        availableAccountSubsidies :=
          subsidized.dgp.availableAccountSubsidies - blurtAccountSubsidyPrecision } }
    else do
      Outcome.ensure (o.fee = db.wso.medianProps.accountCreationFee)
        "Cannot pay more than account creation fee. paid: ${p} fee: ${f}"
      .ok db
  let burned ← paid.adjustBalance blurtNullAccount o.fee
  burned.modifyAccount o.creator fun a => do
    let balance ← shareType (a.balance - o.fee.amount)
    let pendingClaimedAccounts ← shareType (a.pendingClaimedAccounts + 1)
    return { a with balance, pendingClaimedAccounts }

/-- `create_claimed_account_evaluator::do_apply` -/
def createClaimedAccount (db : Database) (o : CreateClaimedAccountOperation) :
    Except String Database := do
  Outcome.ensure (!db.hasHardfork 2) "This operation is disable since hard fork 2."
  let creator ← db.getAccount o.creator
  Outcome.ensure (0 < creator.pendingClaimedAccounts)
    "${creator} has no claimed accounts to create"
  db.verifyAuthorityAccountsExist o.owner
  db.verifyAuthorityAccountsExist o.active
  db.verifyAuthorityAccountsExist o.posting
  let claimed ← db.modifyAccount o.creator fun a => .ok { a with
    pendingClaimedAccounts := a.pendingClaimedAccounts - 1 }
  claimed.createAccount o.creator o.newAccountName o.memoKey o.owner o.active o.posting

/-- The witness with the most votes, the first in the order of `by_vote_name`. -/
def topWitness (db : Database) : Option AccountName :=
  ((db.witnesses.ordered
    (fun x y => y.2.votes < x.2.votes ∨ (x.2.votes = y.2.votes ∧ x.1 ≤ y.1))
    fun _ _ => true).head?).map (·.1)

/-- `request_account_recovery_evaluator::do_apply` -/
def requestAccountRecovery (db : Database) (o : RequestAccountRecoveryOperation) :
    Except String Database := do
  let accountToRecover ← db.getAccount o.accountToRecover
  if accountToRecover.recoveryAccount ≠ "" then
    Outcome.ensure (accountToRecover.recoveryAccount = o.recoveryAccount)
      "Cannot recover an account that does not have you as there recovery partner."
  else
    Outcome.ensure (db.topWitness = some o.recoveryAccount)
      "Top witness must recover an account with no recovery partner."
  let request : AccountRecoveryRequest :=
    { newOwnerAuthority := o.newOwnerAuthority
      expires := addSeconds db.dgp.time blurtAccountRecoveryRequestExpirationPeriod }
  let requested := { db with
    recoveryRequests := db.recoveryRequests.set o.accountToRecover request }
  match db.recoveryRequests.find? o.accountToRecover with
  | none => do
      Outcome.ensure (!o.newOwnerAuthority.isImpossible)
        "Cannot recover using an impossible authority."
      Outcome.ensure (o.newOwnerAuthority.weightThreshold ≠ 0)
        "Cannot recover using an open authority."
      validateAuthSize o.newOwnerAuthority
      db.verifyAuthorityAccountsExist o.newOwnerAuthority
      return requested
  | some _ =>
      if o.newOwnerAuthority.weightThreshold = 0 then
        return { db with recoveryRequests := db.recoveryRequests.remove o.accountToRecover }
      else do
        Outcome.ensure (!o.newOwnerAuthority.isImpossible)
          "Cannot recover using an impossible authority."
        db.verifyAuthorityAccountsExist o.newOwnerAuthority
        return requested

/-- `recover_account_evaluator::do_apply` -/
def recoverAccount (db : Database) (o : RecoverAccountOperation) : Except String Database := do
  let account ← db.getAccount o.accountToRecover
  Outcome.ensure (blurtOwnerUpdateLimit < (db.dgp.time : Int) - account.lastAccountRecovery)
    "Owner authority can only be updated once an hour."
  let request ← Outcome.require (db.recoveryRequests.find? o.accountToRecover)
    "There are no active recovery requests for this account."
  Outcome.ensure (request.newOwnerAuthority = o.newOwnerAuthority)
    "New owner authority does not match recovery request."
  Outcome.ensure
    (db.ownerHistory.rows.any fun row =>
      row.2.account = o.accountToRecover &&
        row.2.previousOwnerAuthority = o.recentOwnerAuthority)
    "Recent authority not found in authority history."
  let removed := { db with recoveryRequests := db.recoveryRequests.remove o.accountToRecover }
  let owned ← removed.updateOwnerAuthority o.accountToRecover o.newOwnerAuthority
  owned.modifyAccount o.accountToRecover fun a =>
    .ok { a with lastAccountRecovery := db.dgp.time }

/-- `change_recovery_account_evaluator::do_apply` -/
def changeRecoveryAccount (db : Database) (o : ChangeRecoveryAccountOperation) :
    Except String Database := do
  let _ ← db.getAccount o.newRecoveryAccount
  let accountToRecover ← db.getAccount o.accountToRecover
  let request : ChangeRecoveryAccountRequest :=
    { recoveryAccount := o.newRecoveryAccount
      effectiveOn := addSeconds db.dgp.time blurtOwnerAuthRecoveryPeriod }
  if (db.changeRecoveryRequests.find? o.accountToRecover).isNone ∨
      accountToRecover.recoveryAccount ≠ o.newRecoveryAccount then
    return { db with
      changeRecoveryRequests := db.changeRecoveryRequests.set o.accountToRecover request }
  else
    return { db with
      changeRecoveryRequests := db.changeRecoveryRequests.remove o.accountToRecover }

end Database

end Ledger

end Blurt
