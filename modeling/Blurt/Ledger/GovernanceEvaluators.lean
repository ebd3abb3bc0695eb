import Blurt.Ledger.AccountEvaluators
import Blurt.Ledger.TransferEvaluators

/-! # Evaluators of witnesses, proxies and proposals -/

namespace Blurt

namespace Ledger

namespace Database

/-! ## Witnesses -/

/-- `witness_update_evaluator::do_apply` -/
def witnessUpdate (db : Database) (o : WitnessUpdateOperation) : Except String Database := do
  let _ ← db.getAccount o.owner
  Outcome.ensure o.props.feeIsCanon "o.props.account_creation_fee.symbol.is_canon()"
  Outcome.ensure (o.props.accountCreationFee ≤ blurtMaxAccountCreationFee)
    "account_creation_fee greater than maximum account creation fee"
  Outcome.ensure (o.props.maximumBlockSize ≤ blurtSoftMaxBlockSize)
    "Max block size cannot be more than 2MiB"
  let isNew := (db.witnesses.find? o.owner).isNone
  let previous :=
    (db.witnesses.find? o.owner).getD { id := db.nextIds.witness, created := db.dgp.time }
  let witness := { previous with
    url := o.url
    signingKey := o.blockSigningKey
    props := { previous.props with
      accountCreationFee := .blurt o.props.accountCreationFee
      maximumBlockSize := o.props.maximumBlockSize } }
  return { db with
    witnesses := db.witnesses.set o.owner witness
    nextIds := { db.nextIds with witness := db.nextIds.witness + isNew.toNat } }

/-- A fee in BLURT that is at least one satoshi. -/
def atLeastOne (amount : Int) : Int := max amount 1

/-- The fee for `kbytes` bytes, of which `size * rate` is computed in 64 bits. -/
def bandwidthFee (size : Nat) (rate : Int) : Int :=
  atLeastOne (wrapInt64 ((size * rate) % 2 ^ 64 / 1024))

/-- The account that receives transaction fees. -/
def feeAccount (db : Database) : AccountName :=
  if db.hasHardfork 4 then blurtNullAccount else blurtTreasuryAccount

/-- One account's payment of a transaction fee. -/
def payFee (db : Database) (payer : AccountName) (fee : Int) : Except String Database := do
  let acnt ← db.getAccount payer
  Outcome.ensure (fee ≤ acnt.balance)
    "Account does not have sufficient funds for transaction fee."
  let debited ← db.adjustBalance payer (.blurt (-fee))
  debited.adjustBalance db.feeAccount (.blurt fee)

/-- A witness with the entries of a `witness_set_properties_operation`. -/
def Witness.setProperties (w : Witness) (props : WitnessProperties) : Witness :=
  { w with
    signingKey := props.newSigningKey.getD w.signingKey
    url := props.url.getD w.url
    props := {
      accountCreationFee := props.accountCreationFee.getD w.props.accountCreationFee
      maximumBlockSize := props.maximumBlockSize.getD w.props.maximumBlockSize
      accountSubsidyBudget := props.accountSubsidyBudget.getD w.props.accountSubsidyBudget
      accountSubsidyDecay := props.accountSubsidyDecay.getD w.props.accountSubsidyDecay
      operationFlatFee := props.operationFlatFee.getD w.props.operationFlatFee
      bandwidthKbytesFee := props.bandwidthKbytesFee.getD w.props.bandwidthKbytesFee } }

/-- `witness_set_properties_evaluator::do_apply` -/
def witnessSetProperties (host : Host) (db : Database) (o : WitnessSetPropertiesOperation) :
    Except String Database := do
  let witness ← db.getWitness o.owner
  Outcome.ensure (o.props.key = some witness.signingKey)
    "'key' does not match witness signing key."
  ensureEntry o.props.accountCreationFee (·.amount ≤ blurtMaxAccountCreationFee)
    "account_creation_fee greater than maximum account creation fee"
  ensureEntry o.props.operationFlatFee (·.amount ≤ 100000) "operation_flat_fee too high!"
  ensureEntry o.props.bandwidthKbytesFee (·.amount ≤ 100000) "bandwidth_kbytes_fee too high!"
  let updated := { db with
    witnesses := db.witnesses.set o.owner (Witness.setProperties witness o.props) }
  if updated.hasHardfork 5 then
    -- the operation needs no authority of an account, so it pays its fee here
    let flatFee := atLeastOne updated.wso.medianProps.operationFlatFee.amount
    let bwFee := bandwidthFee (host.packSize o) updated.wso.medianProps.bandwidthKbytesFee.amount
    let fee ← shareType (flatFee + bwFee)
    updated.payFee o.owner fee
  else
    return updated

/-- `account_witness_vote_evaluator::do_apply` -/
def accountWitnessVote (db : Database) (o : AccountWitnessVoteOperation) :
    Except String Database := do
  let voter ← db.getAccount o.account
  Outcome.ensure (voter.proxy = blurtProxyToSelfAccount)
    "A proxy is currently set, please clear the proxy before voting for a witness."
  Outcome.ensure (o.approve → voter.canVote) "Account has declined its voting rights."
  let _ ← db.getWitness o.witness
  let voteWeight ← shareType (if o.account = blurtRegentAccount then db.dgp.regentVestingShares
    else voter.witnessVoteWeight)
  let key := (o.account, o.witness)
  if (db.witnessVotes.find? key).isNone then
    Outcome.ensure o.approve
      "Vote doesn't exist, user must indicate a desire to approve witness."
    Outcome.ensure (voter.witnessesVotedFor < blurtMaxAccountWitnessVotes)
      "Account has voted for too many witnesses."
    let created := { db with witnessVotes := db.witnessVotes.set key () }
    let voted ← created.adjustWitnessVote o.witness voteWeight
    voted.modifyAccount o.account fun a =>
      .ok { a with witnessesVotedFor := increment 16 a.witnessesVotedFor }
  else
    Outcome.ensure (!o.approve)
      "Vote currently exists, user must indicate a desire to reject witness."
    let unvoted ← db.adjustWitnessVote o.witness (-voteWeight)
    let counted ← unvoted.modifyAccount o.account fun a =>
      .ok { a with witnessesVotedFor := decrement 16 a.witnessesVotedFor }
    return { counted with witnessVotes := counted.witnessVotes.remove key }

/-! ## Proxies -/

/-- The loop of `account_witness_proxy_evaluator` that follows the proxies of the new
proxy; `turns` bounds the size of `proxy_chain`. -/
def checkProxyChain (db : Database) (proxyChain : List AccountName) (current : AccountName) :
    (turns : Nat) → Except String Unit
  | 0 => .error "Proxy chain is too long."
  | turns + 1 => do
      let cprox ← db.getAccount current
      if cprox.proxy ≠ blurtProxyToSelfAccount then
        let _ ← db.getAccount cprox.proxy
        Outcome.ensure (cprox.proxy ∉ proxyChain) "This proxy would create a proxy loop."
        Outcome.ensure (proxyChain.length + 1 ≤ blurtMaxProxyRecursionDepth)
          "Proxy chain is too long."
        db.checkProxyChain (cprox.proxy :: proxyChain) cprox.proxy turns

/-- `account_witness_proxy_evaluator::do_apply` -/
def accountWitnessProxy (db : Database) (o : AccountWitnessProxyOperation) :
    Except String Database := do
  let account ← db.getAccount o.account
  Outcome.ensure (account.proxy ≠ o.proxy) "Proxy must change."
  Outcome.ensure account.canVote
    "Account has declined the ability to vote and cannot proxy votes."
  let delta := account.voteDelta
  let withdrawn ← db.adjustProxiedWitnessVotesArray o.account fun i => -delta i
  if o.proxy ≠ "" then
    let _ ← withdrawn.getAccount o.proxy
    withdrawn.checkProxyChain [o.proxy, o.account] o.proxy (blurtMaxProxyRecursionDepth + 1)
    let cleared ← withdrawn.clearWitnessVotes o.account
    let proxied ← cleared.modifyAccount o.account fun a => .ok { a with proxy := o.proxy }
    proxied.adjustProxiedWitnessVotesArray o.account delta
  else
    withdrawn.modifyAccount o.account fun a => .ok { a with proxy := o.proxy }

/-- `decline_voting_rights_evaluator::do_apply` -/
def declineVotingRights (db : Database) (o : DeclineVotingRightsOperation) :
    Except String Database := do
  let _ ← db.getAccount o.account
  let request := db.declineRequests.find? o.account
  if o.decline then
    Outcome.ensure request.isNone "Cannot create new request because one already exists."
    let effectiveDate := addSeconds db.dgp.time blurtOwnerAuthRecoveryPeriod
    return { db with declineRequests := db.declineRequests.set o.account effectiveDate }
  else
    Outcome.ensure request.isSome "Cannot cancel the request because it does not exist."
    return { db with declineRequests := db.declineRequests.remove o.account }

/-! ## Proposals -/

/-- `create_proposal_evaluator::do_apply` -/
def createProposal (db : Database) (o : CreateProposalOperation) : Except String Database := do
  Outcome.ensure (db.dgp.time < o.endDate) "Can't create inactive proposals..."
  let _ ← db.getAccount blurtTreasuryAccount
  let _ ← db.getAccount o.creator
  Outcome.ensure ((db.accounts.find? o.receiver).isSome)
    "Specified receiver account: ${r} must exist in the blockchain"
  Outcome.ensure ((db.findComment o.creator o.permlink).isSome ∨
      (db.findComment o.receiver o.permlink).isSome)
    "Proposal permlink must point to the article posted by creator or receiver"
  let proposal : Proposal :=
    { creator := o.creator
      receiver := o.receiver
      startDate := o.startDate
      endDate := o.endDate
      dailyPay := o.dailyPay
      subject := o.subject
      permlink := o.permlink }
  let created := { db with
    proposals := db.proposals.set db.nextIds.proposal proposal
    nextIds := { db.nextIds with proposal := db.nextIds.proposal + 1 } }
  let debited ← created.adjustBalance o.creator (.blurt (-blurtTreasuryFee))
  debited.adjustBalance blurtTreasuryAccount (.blurt blurtTreasuryFee)

/-- The proposal under an id of an operation. -/
def findProposal (db : Database) (id : Int) : Option Proposal :=
  if 0 ≤ id then db.proposals.find? id.toNat else none

/-- The body of the loop of `update_proposal_votes_evaluator`. -/
def updateProposalVote (o : UpdateProposalVotesOperation) (db : Database) (id : Int) :
    Database :=
  match db.findProposal id with
  | none => db
  | some proposal =>
      if proposal.removed then db
      else if o.approve then
        { db with proposalVotes := db.proposalVotes.set (id.toNat, o.voter) () }
      else
        { db with proposalVotes := db.proposalVotes.remove (id.toNat, o.voter) }

/-- `update_proposal_votes_evaluator::do_apply` -/
def updateProposalVotes (db : Database) (o : UpdateProposalVotesOperation) : Database :=
  o.proposalIds.foldl (updateProposalVote o) db

end Database

/-- `sps_removing_reducer` -/
structure Reducer where
  threshold : Int
  counter : Int := 0
  done : Bool := false
  deriving DecidableEq, Repr

namespace Reducer

/-- The constructor of `sps_removing_reducer`, which keeps 16 bits of the threshold. -/
def make (threshold : Int) : Reducer := { threshold := threshold.bmod (2 ^ 16) }

/-- `sps_helper::checker`, up to what it does when it is not done. -/
def check (r : Reducer) : Reducer :=
  if r.threshold < 0 then { r with done := false }
  else
    let counter := (r.counter + 1).bmod (2 ^ 16)
    { r with counter, done := r.threshold < counter }

end Reducer

namespace Database

/-- The loop of `sps_helper::remove_proposal` over the votes of a proposal. -/
def removeVotes (id : Nat) : List AccountName → Database × Reducer → Database × Reducer
  | [], state => state
  | voter :: rest, (db, reducer) =>
      let checked := reducer.check
      if checked.done then (db, checked)
      else removeVotes id rest
        ({ db with proposalVotes := db.proposalVotes.remove (id, voter) }, checked)

/-- The voters of a proposal, in the order of `by_proposal_voter`. -/
def proposalVoters (db : Database) (id : Nat) : List AccountName :=
  (db.proposalVotes.ordered (fun x y => x.1.2 ≤ y.1.2) fun key _ => key.1 = id).map (·.1.2)

/-- `sps_helper::remove_proposal` -/
def removeProposalObject (id : Nat) (state : Database × Reducer) : Database × Reducer :=
  let (db, reducer) := removeVotes id (state.1.proposalVoters id) state
  if reducer.done then (db, reducer)
  else
    let checked := reducer.check
    if checked.done then (db, checked)
    else ({ db with proposals := db.proposals.remove id }, checked)

/-- `sps_helper::remove_proposals` of a list of ids. -/
def removeProposals (owner : AccountName) :
    List Int → Database × Reducer → Except String (Database × Reducer)
  | [], state => .ok state
  | id :: rest, state =>
      match state.1.findProposal id with
      | none => removeProposals owner rest state
      | some proposal => do
          Outcome.ensure (proposal.creator = owner) "Only proposal owner can remove it..."
          let removed := removeProposalObject id.toNat state
          if removed.2.done then return removed
          else removeProposals owner rest removed

/-- The body of the loop of `remove_proposal_evaluator` that marks what is left. -/
def markRemoved (db : Database) (id : Int) : Database :=
  match db.findProposal id with
  | none => db
  | some proposal =>
      if proposal.removed then db
      else
        let marked := { proposal with
          removed := true
          endDate := subSeconds db.dgp.time blurtProposalMaintenanceCleanup }
        { db with proposals := db.proposals.set id.toNat marked }

/-- `remove_proposal_evaluator::do_apply` -/
def removeProposal (host : Host) (db : Database) (op : RemoveProposalOperation) :
    Except String Database := do
  let (removed, _) ← removeProposals op.proposalOwner op.proposalIds
    (db, Reducer.make host.spsRemoveThreshold)
  return op.proposalIds.foldl markRemoved removed

end Database

end Ledger

end Blurt
