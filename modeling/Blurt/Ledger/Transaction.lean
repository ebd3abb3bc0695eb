import Blurt.Ledger.CommentEvaluators
import Blurt.Ledger.GovernanceEvaluators

/-! # The application of transactions -/

namespace Blurt

namespace Ledger

namespace Database

/-- `custom_evaluator::do_apply` -/
def custom (host : Host) (db : Database) (o : CustomOperation) : Except String Database := do
  Outcome.ensure (host.isProducing → o.data.length ≤ blurtCustomOpDataMaxLength)
    "Operation data must be less than ${bytes} bytes."
  Outcome.ensure (o.requiredAuths.length ≤ blurtMaxAuthorityMembership)
    "Authority membership exceeded. Max: ${max} Current: ${n}"
  return db

/-- `custom_json_evaluator::do_apply`, without a custom operation interpreter. -/
def customJson (host : Host) (db : Database) (o : CustomJsonOperation) :
    Except String Database := do
  Outcome.ensure (host.isProducing → o.json.length ≤ blurtCustomOpDataMaxLength)
    "Operation JSON must be less than ${bytes} bytes."
  Outcome.ensure
    (o.requiredAuths.length + o.requiredPostingAuths.length ≤ blurtMaxAuthorityMembership)
    "Authority membership exceeded. Max: ${max} Current: ${n}"
  return db

/-- `custom_binary_evaluator::do_apply`, without a custom operation interpreter. -/
def customBinary (host : Host) (db : Database) (o : CustomBinaryOperation) :
    Except String Database := do
  Outcome.ensure (!host.isProducing) "custom_binary_operation is deprecated"
  let numAuths :=
    o.requiredOwnerAuths.length + o.requiredActiveAuths.length + o.requiredPostingAuths.length +
      (o.requiredAuths.map fun auth => auth.keyAuths.length + auth.accountAuths.length).sum
  Outcome.ensure (numAuths ≤ blurtMaxAuthorityMembership)
    "Authority membership exceeded. Max: ${max} Current: ${n}"
  return db

/-- `apply_operation`: the evaluator of each operation. -/
def applyOperation (host : Host) (db : Database) : Operation → Except String Database
  | .vote o => vote host.clearVotes db o
  | .comment o => comment host.rules db o
  | .transfer o => db.transfer o
  | .transferToVesting o => db.transferToVesting o
  | .withdrawVesting o => db.withdrawVesting o
  | .accountCreate o => db.accountCreate o
  | .accountUpdate o => db.accountUpdate o
  | .witnessUpdate o => db.witnessUpdate o
  | .accountWitnessVote o => db.accountWitnessVote o
  | .accountWitnessProxy o => db.accountWitnessProxy o
  | .custom o => custom host db o
  | .deleteComment o => db.deleteComment o
  | .customJson o => customJson host db o
  | .commentOptions o => db.commentOptions o
  | .setWithdrawVestingRoute o => db.setWithdrawVestingRoute o
  | .claimAccount o => claimAccount host db o
  | .createClaimedAccount o => db.createClaimedAccount o
  | .requestAccountRecovery o => db.requestAccountRecovery o
  | .recoverAccount o => db.recoverAccount o
  | .changeRecoveryAccount o => db.changeRecoveryAccount o
  | .escrowTransfer o => db.escrowTransfer o
  | .escrowDispute o => db.escrowDispute o
  | .escrowRelease o => db.escrowRelease o
  | .escrowApprove o => db.escrowApprove o
  | .transferToSavings o => db.transferToSavings o
  | .transferFromSavings o => db.transferFromSavings o
  | .cancelTransferFromSavings o => db.cancelTransferFromSavings o
  | .customBinary o => customBinary host db o
  | .declineVotingRights o => db.declineVotingRights o
  | .resetAccount _ => .error "Reset Account Operation is currently disabled."
  | .setResetAccount _ => .error "Set Reset Account Operation is currently disabled."
  | .claimRewardBalance o => db.claimRewardBalance o
  | .delegateVestingShares o => db.delegateVestingShares o
  | .witnessSetProperties o => witnessSetProperties host db o
  | .createProposal o => db.createProposal o
  | .updateProposalVotes o => .ok (db.updateProposalVotes o)
  | .removeProposal o => removeProposal host db o

/-- The fee that `process_tx_fee` asks of every required account. -/
def txFee (db : Database) (trx : SignedTransaction) : Except String Int :=
  let props := db.wso.medianProps
  let flatFee := atLeastOne (wrapInt64 (props.operationFlatFee.amount * trx.operations.length))
  shareType (flatFee + bandwidthFee trx.packSize props.bandwidthKbytesFee.amount)

/-- `process_tx_fee` -/
def processTxFee (db : Database) (trx : SignedTransaction) : Except String Database :=
  if db.hasHardfork 1 then do
    let fee ← db.txFee trx
    Outcome.forEach (fun db auth => payFee db auth fee) db trx.required
  else
    .ok db

/-- The part of `_apply_transaction` that changes the ledger: the fee, then the
operations in their order. -/
def applyTransaction (host : Host) (db : Database) (trx : SignedTransaction) :
    Except String Database := do
  let paid ← db.processTxFee trx
  Outcome.forEach (applyOperation host) paid trx.operations

end Database

end Ledger

end Blurt
