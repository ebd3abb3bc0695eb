import Blurt.Ledger.Vesting

/-! # Evaluators of transfers, savings and escrows -/

namespace Blurt

namespace Ledger

/-- An unsigned counter of `bits` bits after `++`. -/
def increment (bits n : Nat) : Nat := (n + 1) % 2 ^ bits

/-- An unsigned counter of `bits` bits after `--`. -/
def decrement (bits n : Nat) : Nat := (n + (2 ^ bits - 1)) % 2 ^ bits

namespace Database

/-- `transfer_evaluator::do_apply` -/
def transfer (db : Database) (o : TransferOperation) : Except String Database := do
  Outcome.ensure (o.amount.symbol = .blurt) "Can only transfer BLURT_SYMBOL"
  let debited ← db.adjustBalance o.fromAccount (-o.amount)
  debited.adjustBalance o.toAccount o.amount

/-- `transfer_to_savings_evaluator::do_apply` -/
def transferToSavings (db : Database) (op : TransferToSavingsOperation) :
    Except String Database := do
  let _ ← db.getAccount op.fromAccount
  let _ ← db.getAccount op.toAccount
  Outcome.ensure (op.toAccount ≠ blurtTreasuryAccount) "Cannot transfer savings to ${s}"
  let debited ← db.adjustBalance op.fromAccount (-op.amount)
  debited.adjustSavingsBalance op.toAccount op.amount

/-- `transfer_from_savings_evaluator::do_apply` -/
def transferFromSavings (db : Database) (op : TransferFromSavingsOperation) :
    Except String Database := do
  let sender ← db.getAccount op.fromAccount
  let _ ← db.getAccount op.toAccount
  Outcome.ensure (sender.savingsWithdrawRequests < blurtSavingsWithdrawRequestLimit)
    "Account has reached limit for pending withdraw requests."
  Outcome.ensure (op.amount.symbol = .blurt) "Can only transfer BLURT_SYMBOL"
  let available ← getSavingsBalance sender op.amount.symbol
  Outcome.ensure (op.amount.amount ≤ available)
    "_db.get_savings_balance( from, op.amount.symbol ) >= op.amount"
  let debited ← db.adjustSavingsBalance op.fromAccount (-op.amount)
  Outcome.ensure ((debited.savingsWithdraws.find? (op.fromAccount, op.requestId)).isNone)
    "could not insert object"
  let withdraw : SavingsWithdraw :=
    { toAccount := op.toAccount
      memo := op.memo
      amount := op.amount
      complete := addSeconds db.dgp.time blurtSavingsWithdrawTime }
  let savingsWithdraws := debited.savingsWithdraws.set (op.fromAccount, op.requestId) withdraw
  { debited with savingsWithdraws }.modifyAccount op.fromAccount fun a =>
    .ok { a with savingsWithdrawRequests := increment 8 a.savingsWithdrawRequests }

/-- `cancel_transfer_from_savings_evaluator::do_apply` -/
def cancelTransferFromSavings (db : Database) (op : CancelTransferFromSavingsOperation) :
    Except String Database := do
  let swo ← db.getSavingsWithdraw op.fromAccount op.requestId
  let credited ← db.adjustSavingsBalance op.fromAccount swo.amount
  let savingsWithdraws := credited.savingsWithdraws.remove (op.fromAccount, op.requestId)
  { credited with savingsWithdraws }.modifyAccount op.fromAccount fun a =>
    .ok { a with savingsWithdrawRequests := decrement 8 a.savingsWithdrawRequests }

/-- `escrow_transfer_evaluator::do_apply` -/
def escrowTransfer (db : Database) (o : EscrowTransferOperation) : Except String Database := do
  let _ ← db.getAccount o.fromAccount
  let _ ← db.getAccount o.toAccount
  let _ ← db.getAccount o.agent
  Outcome.ensure (db.dgp.time < o.ratificationDeadline)
    "The escorw ratification deadline must be after head block time."
  Outcome.ensure (db.dgp.time < o.escrowExpiration)
    "The escrow expiration must be after head block time."
  Outcome.ensure (o.fee.symbol = .blurt → o.blurtAmount.symbol = .blurt) "symbol == o.symbol"
  let spent ← shareType
    (if o.fee.symbol = .blurt then o.blurtAmount.amount + o.fee.amount else o.blurtAmount.amount)
  let debited ← db.adjustBalance o.fromAccount (-⟨spent, o.blurtAmount.symbol⟩)
  Outcome.ensure ((debited.escrows.find? (o.fromAccount, o.escrowId)).isNone)
    "could not insert object"
  let escrow : Escrow :=
    { id := debited.nextIds.escrow
      toAccount := o.toAccount
      agent := o.agent
      ratificationDeadline := o.ratificationDeadline
      escrowExpiration := o.escrowExpiration
      blurtBalance := o.blurtAmount
      pendingFee := o.fee }
  return { debited with
    escrows := debited.escrows.set (o.fromAccount, o.escrowId) escrow
    nextIds := { debited.nextIds with escrow := debited.nextIds.escrow + 1 } }

/-- The approval of one party in `escrow_approve_evaluator`. -/
def approveEscrow (escrow : Escrow) (o : EscrowApproveOperation) : Except String Escrow := do
  Outcome.ensure (o.who = o.toAccount → !escrow.toApproved)
    "Account 'to' (${t}) has already approved the escrow."
  Outcome.ensure (o.who = o.agent → !escrow.agentApproved)
    "Account 'agent' (${a}) has already approved the escrow."
  return { escrow with
    toApproved := escrow.toApproved || (o.approve && o.who = o.toAccount)
    agentApproved := escrow.agentApproved || (o.approve && o.who = o.agent) }

/-- `escrow_approve_evaluator::do_apply` -/
def escrowApprove (db : Database) (o : EscrowApproveOperation) : Except String Database := do
  let escrow ← db.getEscrow o.fromAccount o.escrowId
  Outcome.ensure (escrow.toAccount = o.toAccount)
    "Operation 'to' (${o}) does not match escrow 'to' (${e})."
  Outcome.ensure (escrow.agent = o.agent)
    "Operation 'agent' (${a}) does not match escrow 'agent' (${e})."
  Outcome.ensure (db.dgp.time ≤ escrow.ratificationDeadline)
    "The escrow ratification deadline has passed. Escrow can no longer be ratified."
  let approved ← approveEscrow escrow o
  if !o.approve then
    let refunded ← db.adjustBalance o.fromAccount escrow.blurtBalance
    let returned ← refunded.adjustBalance o.fromAccount escrow.pendingFee
    return { returned with escrows := returned.escrows.remove (o.fromAccount, o.escrowId) }
  else if approved.isApproved then
    let paid ← db.adjustBalance o.agent approved.pendingFee
    let settled := { approved with pendingFee := { approved.pendingFee with amount := 0 } }
    return { paid with escrows := paid.escrows.set (o.fromAccount, o.escrowId) settled }
  else
    return { db with escrows := db.escrows.set (o.fromAccount, o.escrowId) approved }

/-- `escrow_dispute_evaluator::do_apply` -/
def escrowDispute (db : Database) (o : EscrowDisputeOperation) : Except String Database := do
  let _ ← db.getAccount o.fromAccount
  let e ← db.getEscrow o.fromAccount o.escrowId
  Outcome.ensure (db.dgp.time < e.escrowExpiration)
    "Disputing the escrow must happen before expiration."
  Outcome.ensure e.isApproved
    "The escrow must be approved by all parties before a dispute can be raised."
  Outcome.ensure (!e.disputed) "The escrow is already under dispute."
  Outcome.ensure (e.toAccount = o.toAccount)
    "Operation 'to' (${o}) does not match escrow 'to' (${e})."
  Outcome.ensure (e.agent = o.agent)
    "Operation 'agent' (${a}) does not match escrow 'agent' (${e})."
  return { db with
    escrows := db.escrows.set (o.fromAccount, o.escrowId) { e with disputed := true } }

/-- The rules of `escrow_release_evaluator` on who may release to whom. -/
def checkRelease (now : Nat) (e : Escrow) (o : EscrowReleaseOperation) : Except String Unit := do
  if e.disputed then
    Outcome.ensure (o.who = e.agent)
      "Only 'agent' (${a}) can release funds in a disputed escrow."
  else
    Outcome.ensure (o.who = o.fromAccount ∨ o.who = e.toAccount)
      "Only 'from' (${f}) and 'to' (${t}) can release funds from a non-disputed escrow"
    if now < e.escrowExpiration then
      if o.who = o.fromAccount then
        Outcome.ensure (o.receiver = e.toAccount)
          "Only 'from' (${f}) can release funds to 'to' (${t})."
      else if o.who = e.toAccount then
        Outcome.ensure (o.receiver = o.fromAccount)
          "Only 'to' (${t}) can release funds to 'from' (${t})."

/-- `escrow_release_evaluator::do_apply` -/
def escrowRelease (db : Database) (o : EscrowReleaseOperation) : Except String Database := do
  let _ ← db.getAccount o.fromAccount
  let e ← db.getEscrow o.fromAccount o.escrowId
  Outcome.ensure (e.blurtBalance.symbol = o.blurtAmount.symbol) "a.symbol == b.symbol"
  Outcome.ensure (o.blurtAmount.amount ≤ e.blurtBalance.amount)
    "Release amount exceeds escrow balance. Amount: ${a}, Balance: ${b}"
  Outcome.ensure (e.toAccount = o.toAccount)
    "Operation 'to' (${o}) does not match escrow 'to' (${e})."
  Outcome.ensure (e.agent = o.agent)
    "Operation 'agent' (${a}) does not match escrow 'agent' (${e})."
  Outcome.ensure (o.receiver = o.fromAccount ∨ o.receiver = e.toAccount)
    "Funds must be released to 'from' (${f}) or 'to' (${t})"
  Outcome.ensure e.isApproved "Funds cannot be released prior to escrow approval."
  checkRelease db.dgp.time e o
  let paid ← db.adjustBalance o.receiver o.blurtAmount
  let remaining ← shareType (e.blurtBalance.amount - o.blurtAmount.amount)
  let reduced := { e with blurtBalance := { e.blurtBalance with amount := remaining } }
  if remaining = 0 then
    return { paid with escrows := paid.escrows.remove (o.fromAccount, o.escrowId) }
  else
    return { paid with escrows := paid.escrows.set (o.fromAccount, o.escrowId) reduced }

end Database

end Ledger

end Blurt
