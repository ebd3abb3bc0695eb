import Blurt.Protocol.Asset
import Blurt.Protocol.Authority
import Blurt.Protocol.Constants
import Mathlib.Data.List.Dedup
import Mathlib.Data.List.Sort
import Mathlib.Data.String.Basic

/-! # Operations and their stateless checks

Each operation has the fields of the source and its `validate`. The authorities that
an operation requires are listed at the end.
-/

namespace Blurt

/-- What `validate` asks about the bytes of a string. -/
structure TextRules where
  /-- `fc::is_utf8` -/
  isUtf8 : Text → Bool
  /-- `fc::json::is_valid` -/
  isValidJson : Text → Bool

variable (rules : TextRules)

/-- `validate_permlink` -/
def validatePermlink (permlink : Text) : Except String Unit := do
  Outcome.ensure (permlink.length < blurtMaxPermlinkLength) "permlink is too long"
  Outcome.ensure (rules.isUtf8 permlink) "permlink not formatted in UTF8"

/-- The check of a metadata field that may be empty. -/
def validateMetadata (metadata : Text) : Except String Unit := do
  Outcome.ensure (metadata.length = 0 ∨ rules.isUtf8 metadata) "JSON Metadata not formatted in UTF8"
  Outcome.ensure (metadata.length = 0 ∨ rules.isValidJson metadata) "JSON Metadata not valid JSON"

/-- The checks of a memo. -/
def validateMemo (memo : Text) : Except String Unit := do
  Outcome.ensure (memo.length < blurtMaxMemoSize) "Memo is too large"
  Outcome.ensure (rules.isUtf8 memo) "Memo is not UTF8"

/-- The checks of an account creation fee. -/
def validateCreationFee (fee : Asset) : Except String Unit := do
  Outcome.ensure (fee.symbol = .blurt) "Account creation fee must be BLURT"
  Outcome.ensure (0 ≤ fee.amount) "Account creation fee cannot be negative"
  Outcome.ensure (fee.amount ≤ blurtMaxAccountCreationFee)
    "Account creation fee cannot be too large"

/-! ## Accounts -/

structure AccountCreateOperation where
  fee : Asset
  creator : AccountName
  newAccountName : AccountName
  owner : Authority
  active : Authority
  posting : Authority
  memoKey : PublicKey
  jsonMetadata : Text
  deriving DecidableEq, Repr

def AccountCreateOperation.validate (o : AccountCreateOperation) : Except String Unit := do
  validateAccountName o.newAccountName
  Outcome.ensure (o.fee.symbol = .blurt) "Account creation fee must be BLURT"
  o.owner.validate
  o.active.validate
  validateAuthSize o.owner
  validateAuthSize o.active
  validateAuthSize o.posting
  validateMetadata rules o.jsonMetadata
  validateCreationFee o.fee

structure AccountUpdateOperation where
  account : AccountName
  owner : Option Authority
  active : Option Authority
  posting : Option Authority
  memoKey : Option PublicKey
  jsonMetadata : Text
  postingJsonMetadata : Text
  deriving DecidableEq, Repr

def AccountUpdateOperation.validate (o : AccountUpdateOperation) : Except String Unit := do
  validateAccountName o.account
  validateMetadata rules o.jsonMetadata
  validateMetadata rules o.postingJsonMetadata

structure ClaimAccountOperation where
  creator : AccountName
  fee : Asset
  extensions : List Nat
  deriving DecidableEq, Repr

def ClaimAccountOperation.validate (o : ClaimAccountOperation) : Except String Unit := do
  validateAccountName o.creator
  validateCreationFee o.fee
  Outcome.ensure (o.extensions = []) "There are no extensions for claim_account_operation."

structure CreateClaimedAccountOperation where
  creator : AccountName
  newAccountName : AccountName
  owner : Authority
  active : Authority
  posting : Authority
  memoKey : PublicKey
  jsonMetadata : Text
  extensions : List Nat
  deriving DecidableEq, Repr

def CreateClaimedAccountOperation.validate (o : CreateClaimedAccountOperation) :
    Except String Unit := do
  validateAccountName o.creator
  validateAccountName o.newAccountName
  o.owner.validate
  o.active.validate
  o.posting.validate
  validateAuthSize o.owner
  validateAuthSize o.active
  validateAuthSize o.posting
  validateMetadata rules o.jsonMetadata
  Outcome.ensure (o.extensions = [])
    "There are no extensions for create_claimed_account_operation."

structure RequestAccountRecoveryOperation where
  recoveryAccount : AccountName
  accountToRecover : AccountName
  newOwnerAuthority : Authority
  deriving DecidableEq, Repr

def RequestAccountRecoveryOperation.validate (o : RequestAccountRecoveryOperation) :
    Except String Unit := do
  validateAccountName o.recoveryAccount
  validateAccountName o.accountToRecover
  o.newOwnerAuthority.validate

structure RecoverAccountOperation where
  accountToRecover : AccountName
  newOwnerAuthority : Authority
  recentOwnerAuthority : Authority
  deriving DecidableEq, Repr

def RecoverAccountOperation.validate (o : RecoverAccountOperation) : Except String Unit := do
  validateAccountName o.accountToRecover
  Outcome.ensure (o.newOwnerAuthority ≠ o.recentOwnerAuthority)
    "Cannot set new owner authority to the recent owner authority"
  Outcome.ensure (!o.newOwnerAuthority.isImpossible) "new owner authority cannot be impossible"
  Outcome.ensure (!o.recentOwnerAuthority.isImpossible)
    "recent owner authority cannot be impossible"
  Outcome.ensure (o.newOwnerAuthority.weightThreshold ≠ 0)
    "new owner authority cannot be trivial"
  o.newOwnerAuthority.validate
  o.recentOwnerAuthority.validate

structure ChangeRecoveryAccountOperation where
  accountToRecover : AccountName
  newRecoveryAccount : AccountName
  deriving DecidableEq, Repr

def ChangeRecoveryAccountOperation.validate (o : ChangeRecoveryAccountOperation) :
    Except String Unit := do
  validateAccountName o.accountToRecover
  validateAccountName o.newRecoveryAccount

structure ResetAccountOperation where
  resetAccount : AccountName
  accountToReset : AccountName
  newOwnerAuthority : Authority
  deriving DecidableEq, Repr

def ResetAccountOperation.validate (o : ResetAccountOperation) : Except String Unit := do
  validateAccountName o.resetAccount
  validateAccountName o.accountToReset
  Outcome.ensure (!o.newOwnerAuthority.isImpossible) "new owner authority cannot be impossible"
  Outcome.ensure (o.newOwnerAuthority.weightThreshold ≠ 0)
    "new owner authority cannot be trivial"
  o.newOwnerAuthority.validate

structure SetResetAccountOperation where
  account : AccountName
  currentResetAccount : AccountName
  resetAccount : AccountName
  deriving DecidableEq, Repr

def SetResetAccountOperation.validate (o : SetResetAccountOperation) : Except String Unit := do
  validateAccountName o.account
  if o.currentResetAccount ≠ "" then
    validateAccountName o.currentResetAccount
  validateAccountName o.resetAccount
  Outcome.ensure (o.currentResetAccount ≠ o.resetAccount)
    "new reset account cannot be current reset account"

/-! ## Comments -/

structure CommentOperation where
  parentAuthor : AccountName
  parentPermlink : Text
  author : AccountName
  permlink : Text
  title : Text
  body : Text
  jsonMetadata : Text
  deriving DecidableEq, Repr

def CommentOperation.validate (o : CommentOperation) : Except String Unit := do
  Outcome.ensure (o.title.length < blurtCommentTitleLimit)
    "Title size limit exceeded. Max: ${max} Current: ${n}"
  Outcome.ensure (rules.isUtf8 o.title) "Title not formatted in UTF8"
  Outcome.ensure (0 < o.body.length) "Body is empty"
  Outcome.ensure (rules.isUtf8 o.body) "Body not formatted in UTF8"
  if o.parentAuthor ≠ "" then
    validateAccountName o.parentAuthor
  validateAccountName o.author
  validatePermlink rules o.parentPermlink
  validatePermlink rules o.permlink
  Outcome.ensure (o.jsonMetadata.length = 0 ∨ rules.isValidJson o.jsonMetadata)
    "JSON Metadata not valid JSON"

/-- `beneficiary_route_type` -/
structure BeneficiaryRoute where
  account : AccountName
  weight : Nat
  deriving DecidableEq, Repr

/-- `comment_options_extension` -/
inductive CommentOptionsExtension
  | payoutBeneficiaries (beneficiaries : List BeneficiaryRoute)
  | payoutBlurt (percentBlurt : Nat)
  deriving DecidableEq, Repr

/-- The loop of `comment_payout_beneficiaries::validate`, after the routes whose weights
add up to `sum` and whose last account is `previous`. -/
def validateRoutes (sum : Nat) (previous : Option AccountName) :
    List BeneficiaryRoute → Except String Unit
  | [] => .ok ()
  | route :: rest => do
      validateAccountName route.account
      Outcome.ensure (route.weight ≤ blurt100Percent)
        "Cannot allocate more than 100% of rewards to one account"
      Outcome.ensure (sum + route.weight ≤ blurt100Percent)
        "Cannot allocate more than 100% of rewards to a comment"
      Outcome.ensure (previous.all fun account => account < route.account)
        "Benficiaries must be specified in sorted order (account ascending)"
      validateRoutes (sum + route.weight) (some route.account) rest

def CommentOptionsExtension.validate : CommentOptionsExtension → Except String Unit
  | payoutBeneficiaries beneficiaries => do
      Outcome.ensure (beneficiaries ≠ []) "Must specify at least one beneficiary"
      Outcome.ensure (beneficiaries.length < blurtBeneficiaryLimit)
        "Cannot specify more than ${max} beneficiaries."
      validateRoutes 0 none beneficiaries
  | payoutBlurt percentBlurt =>
      Outcome.ensure (percentBlurt ≤ blurt100Percent) "Percent cannot exceed 100%"

structure CommentOptionsOperation where
  author : AccountName
  permlink : Text
  maxAcceptedPayout : Asset
  allowVotes : Bool
  allowCurationRewards : Bool
  extensions : List CommentOptionsExtension
  deriving DecidableEq, Repr

def CommentOptionsOperation.validate (o : CommentOptionsOperation) : Except String Unit := do
  validateAccountName o.author
  Outcome.ensure (o.maxAcceptedPayout.symbol = .blurt)
    "Max accepted payout must be in BLURT_SYMBOL"
  Outcome.ensure (0 ≤ o.maxAcceptedPayout.amount) "Cannot accept less than 0 payout"
  validatePermlink rules o.permlink
  Outcome.forEach (fun _ extension => extension.validate) () o.extensions

structure DeleteCommentOperation where
  author : AccountName
  permlink : Text
  deriving DecidableEq, Repr

def DeleteCommentOperation.validate (o : DeleteCommentOperation) : Except String Unit := do
  validatePermlink rules o.permlink
  validateAccountName o.author

structure VoteOperation where
  voter : AccountName
  author : AccountName
  permlink : Text
  weight : Int
  deriving DecidableEq, Repr

def VoteOperation.validate (o : VoteOperation) : Except String Unit := do
  validateAccountName o.voter
  validateAccountName o.author
  Outcome.ensure (o.weight.natAbs ≤ blurt100Percent) "Weight is not a BLURTIT percentage"
  validatePermlink rules o.permlink

/-! ## Transfers, savings and escrows -/

structure TransferOperation where
  fromAccount : AccountName
  toAccount : AccountName
  amount : Asset
  memo : Text
  deriving DecidableEq, Repr

def TransferOperation.validate (o : TransferOperation) : Except String Unit := do
  validateAccountName o.fromAccount
  validateAccountName o.toAccount
  Outcome.ensure (!o.amount.symbol.isVesting) "Transfer of vesting is not allowed."
  Outcome.ensure (0 < o.amount.amount) "Cannot transfer a negative amount (aka: stealing)"
  validateMemo rules o.memo

structure TransferToSavingsOperation where
  fromAccount : AccountName
  toAccount : AccountName
  amount : Asset
  memo : Text
  deriving DecidableEq, Repr

def TransferToSavingsOperation.validate (o : TransferToSavingsOperation) :
    Except String Unit := do
  validateAccountName o.fromAccount
  validateAccountName o.toAccount
  Outcome.ensure (0 < o.amount.amount) "amount.amount > 0"
  Outcome.ensure (o.amount.symbol = .blurt) "amount.symbol == BLURT_SYMBOL"
  validateMemo rules o.memo

structure TransferFromSavingsOperation where
  fromAccount : AccountName
  requestId : Nat
  toAccount : AccountName
  amount : Asset
  memo : Text
  deriving DecidableEq, Repr

def TransferFromSavingsOperation.validate (o : TransferFromSavingsOperation) :
    Except String Unit := do
  validateAccountName o.fromAccount
  validateAccountName o.toAccount
  Outcome.ensure (0 < o.amount.amount) "amount.amount > 0"
  Outcome.ensure (o.amount.symbol = .blurt) "amount.symbol == BLURT_SYMBOL"
  validateMemo rules o.memo

structure CancelTransferFromSavingsOperation where
  fromAccount : AccountName
  requestId : Nat
  deriving DecidableEq, Repr

def CancelTransferFromSavingsOperation.validate (o : CancelTransferFromSavingsOperation) :
    Except String Unit :=
  validateAccountName o.fromAccount

structure EscrowTransferOperation where
  fromAccount : AccountName
  toAccount : AccountName
  agent : AccountName
  escrowId : Nat
  blurtAmount : Asset
  fee : Asset
  ratificationDeadline : Nat
  escrowExpiration : Nat
  jsonMeta : Text
  deriving DecidableEq, Repr

def EscrowTransferOperation.validate (o : EscrowTransferOperation) : Except String Unit := do
  validateAccountName o.fromAccount
  validateAccountName o.toAccount
  validateAccountName o.agent
  Outcome.ensure (0 ≤ o.fee.amount) "fee cannot be negative"
  Outcome.ensure (0 < o.blurtAmount.amount) "amount cannot be negative"
  Outcome.ensure (o.fromAccount ≠ o.agent ∧ o.toAccount ≠ o.agent) "agent must be a third party"
  Outcome.ensure (o.fee.symbol = .blurt) "fee must be BLURT"
  Outcome.ensure (o.blurtAmount.symbol = .blurt) "amount must contain BLURT"
  Outcome.ensure (o.ratificationDeadline < o.escrowExpiration)
    "ratification deadline must be before escrow expiration"
  validateMetadata rules o.jsonMeta

structure EscrowApproveOperation where
  fromAccount : AccountName
  toAccount : AccountName
  agent : AccountName
  who : AccountName
  escrowId : Nat
  approve : Bool
  deriving DecidableEq, Repr

def EscrowApproveOperation.validate (o : EscrowApproveOperation) : Except String Unit := do
  validateAccountName o.fromAccount
  validateAccountName o.toAccount
  validateAccountName o.agent
  validateAccountName o.who
  Outcome.ensure (o.who = o.toAccount ∨ o.who = o.agent) "to or agent must approve escrow"

structure EscrowDisputeOperation where
  fromAccount : AccountName
  toAccount : AccountName
  agent : AccountName
  who : AccountName
  escrowId : Nat
  deriving DecidableEq, Repr

def EscrowDisputeOperation.validate (o : EscrowDisputeOperation) : Except String Unit := do
  validateAccountName o.fromAccount
  validateAccountName o.toAccount
  validateAccountName o.agent
  validateAccountName o.who
  Outcome.ensure (o.who = o.fromAccount ∨ o.who = o.toAccount) "who must be from or to"

structure EscrowReleaseOperation where
  fromAccount : AccountName
  toAccount : AccountName
  agent : AccountName
  who : AccountName
  receiver : AccountName
  escrowId : Nat
  blurtAmount : Asset
  deriving DecidableEq, Repr

def EscrowReleaseOperation.validate (o : EscrowReleaseOperation) : Except String Unit := do
  validateAccountName o.fromAccount
  validateAccountName o.toAccount
  validateAccountName o.agent
  validateAccountName o.who
  validateAccountName o.receiver
  Outcome.ensure (o.who = o.fromAccount ∨ o.who = o.toAccount ∨ o.who = o.agent)
    "who must be from or to or agent"
  Outcome.ensure (o.receiver = o.fromAccount ∨ o.receiver = o.toAccount)
    "receiver must be from or to"
  Outcome.ensure (0 < o.blurtAmount.amount) "amount cannot be negative"
  Outcome.ensure (o.blurtAmount.symbol = .blurt) "amount must contain BLURT"

/-! ## Vesting -/

structure TransferToVestingOperation where
  fromAccount : AccountName
  toAccount : AccountName
  amount : Asset
  deriving DecidableEq, Repr

def TransferToVestingOperation.validate (o : TransferToVestingOperation) :
    Except String Unit := do
  validateAccountName o.fromAccount
  Outcome.ensure
    (o.amount.symbol = .blurt ∨ (o.amount.symbol.isSmt ∧ !o.amount.symbol.isVesting))
    "Amount must be BLURT or SMT liquid"
  if o.toAccount ≠ "" then
    validateAccountName o.toAccount
  Outcome.ensure (0 < o.amount.amount) "Must transfer a nonzero amount"

structure WithdrawVestingOperation where
  account : AccountName
  vestingShares : Asset
  deriving DecidableEq, Repr

def WithdrawVestingOperation.validate (o : WithdrawVestingOperation) : Except String Unit := do
  validateAccountName o.account
  Outcome.ensure (o.vestingShares.symbol = .vests) "Amount must be VESTS"

structure SetWithdrawVestingRouteOperation where
  fromAccount : AccountName
  toAccount : AccountName
  percent : Nat
  autoVest : Bool
  deriving DecidableEq, Repr

def SetWithdrawVestingRouteOperation.validate (o : SetWithdrawVestingRouteOperation) :
    Except String Unit := do
  validateAccountName o.fromAccount
  validateAccountName o.toAccount
  Outcome.ensure (o.percent ≤ blurt100Percent) "Percent must be valid percent"

structure ClaimRewardBalanceOperation where
  account : AccountName
  rewardBlurt : Asset
  rewardVests : Asset
  deriving DecidableEq, Repr

def ClaimRewardBalanceOperation.validate (o : ClaimRewardBalanceOperation) :
    Except String Unit := do
  validateAccountName o.account
  Outcome.ensure (o.rewardBlurt.symbol = .blurt) "Reward Steem must be BLURT"
  Outcome.ensure (o.rewardVests.symbol = .vests) "Reward Steem must be VESTS"
  Outcome.ensure (0 ≤ o.rewardBlurt.amount) "Cannot claim a negative amount"
  Outcome.ensure (0 ≤ o.rewardVests.amount) "Cannot claim a negative amount"
  Outcome.ensure (0 < o.rewardBlurt.amount ∨ 0 < o.rewardVests.amount) "Must claim something."

structure DelegateVestingSharesOperation where
  delegator : AccountName
  delegatee : AccountName
  vestingShares : Asset
  deriving DecidableEq, Repr

def DelegateVestingSharesOperation.validate (o : DelegateVestingSharesOperation) :
    Except String Unit := do
  validateAccountName o.delegator
  validateAccountName o.delegatee
  Outcome.ensure (o.delegator ≠ o.delegatee) "You cannot delegate VESTS to yourself"
  Outcome.ensure (o.vestingShares.symbol = .vests) "Delegation must be VESTS"
  Outcome.ensure (0 ≤ o.vestingShares.amount) "Delegation cannot be negative"

/-! ## Witnesses and governance -/

/-- `legacy_chain_properties` -/
structure LegacyChainProperties where
  accountCreationFee : Int
  /-- `account_creation_fee.symbol.is_canon()` -/
  feeIsCanon : Bool
  maximumBlockSize : Nat
  deriving DecidableEq, Repr

structure WitnessUpdateOperation where
  owner : AccountName
  url : Text
  blockSigningKey : PublicKey
  props : LegacyChainProperties
  fee : Asset
  deriving DecidableEq, Repr

def WitnessUpdateOperation.validate (o : WitnessUpdateOperation) : Except String Unit := do
  validateAccountName o.owner
  Outcome.ensure (o.url.length ≤ blurtMaxWitnessUrlLength) "URL is too long"
  Outcome.ensure (0 < o.url.length) "URL size must be greater than 0"
  Outcome.ensure (rules.isUtf8 o.url) "URL is not valid UTF8"
  Outcome.ensure (o.fee.symbol = .blurt ∧ 0 ≤ o.fee.amount) "Fee cannot be negative"
  Outcome.ensure (blurtMinAccountCreationFee ≤ o.props.accountCreationFee)
    "account_creation_fee.amount >= BLURT_MIN_ACCOUNT_CREATION_FEE"
  Outcome.ensure (blurtMinBlockSizeLimit ≤ o.props.maximumBlockSize)
    "maximum_block_size >= BLURT_MIN_BLOCK_SIZE_LIMIT"

/-- The decoded entries of the map `props` of `witness_set_properties_operation`. -/
structure WitnessProperties where
  key : Option PublicKey := none
  accountCreationFee : Option Asset := none
  maximumBlockSize : Option Nat := none
  accountSubsidyBudget : Option Int := none
  accountSubsidyDecay : Option Nat := none
  newSigningKey : Option PublicKey := none
  url : Option Text := none
  operationFlatFee : Option Asset := none
  bandwidthKbytesFee : Option Asset := none
  deriving DecidableEq, Repr

structure WitnessSetPropertiesOperation where
  owner : AccountName
  props : WitnessProperties
  deriving DecidableEq, Repr

/-- A check of an entry of `props` that may be missing. -/
def ensureEntry {α : Type} (entry : Option α) (condition : α → Bool) (message : String) :
    Except String Unit :=
  Outcome.ensure (entry.all condition) message

def WitnessSetPropertiesOperation.validate (o : WitnessSetPropertiesOperation) :
    Except String Unit := do
  validateAccountName o.owner
  Outcome.ensure o.props.key.isSome "No signing key provided"
  ensureEntry o.props.accountCreationFee (·.symbol = .blurt) "account_creation_fee must be in BLURT"
  ensureEntry o.props.accountCreationFee (blurtMinAccountCreationFee ≤ ·.amount)
    "account_creation_fee smaller than minimum account creation fee"
  ensureEntry o.props.maximumBlockSize (blurtMinBlockSizeLimit ≤ ·)
    "maximum_block_size smaller than minimum max block size"
  ensureEntry o.props.url (·.length ≤ blurtMaxWitnessUrlLength) "URL is too long"
  ensureEntry o.props.url (0 < ·.length) "URL size must be greater than 0"
  ensureEntry o.props.url rules.isUtf8 "URL is not valid UTF8"
  ensureEntry o.props.accountSubsidyBudget (blurtRdMinBudget ≤ ·) "Budget must be at least ${n}"
  ensureEntry o.props.accountSubsidyBudget (· ≤ blurtRdMaxBudget) "Budget must be at most ${n}"
  ensureEntry o.props.accountSubsidyDecay (blurtRdMinDecay ≤ ·) "Decay must be at least ${n}"
  ensureEntry o.props.accountSubsidyDecay (· ≤ blurtRdMaxDecay) "Decay must be at most ${n}"
  ensureEntry o.props.operationFlatFee (·.symbol = .blurt) "operation_flat_fee must be in BLURT"
  ensureEntry o.props.operationFlatFee (0 < ·.amount) "operation_flat_fee > 0"
  ensureEntry o.props.bandwidthKbytesFee (·.symbol = .blurt)
    "bandwidth_kbytes_fee must be in BLURT"
  ensureEntry o.props.bandwidthKbytesFee (0 < ·.amount) "bandwidth_kbytes_fee > 0"

structure AccountWitnessVoteOperation where
  account : AccountName
  witness : AccountName
  approve : Bool
  deriving DecidableEq, Repr

def AccountWitnessVoteOperation.validate (o : AccountWitnessVoteOperation) :
    Except String Unit := do
  validateAccountName o.account
  validateAccountName o.witness

structure AccountWitnessProxyOperation where
  account : AccountName
  proxy : AccountName
  deriving DecidableEq, Repr

def AccountWitnessProxyOperation.validate (o : AccountWitnessProxyOperation) :
    Except String Unit := do
  validateAccountName o.account
  if o.proxy ≠ "" then
    validateAccountName o.proxy
  Outcome.ensure (o.proxy ≠ o.account) "Cannot proxy to self"

structure DeclineVotingRightsOperation where
  account : AccountName
  decline : Bool
  deriving DecidableEq, Repr

def DeclineVotingRightsOperation.validate (o : DeclineVotingRightsOperation) :
    Except String Unit :=
  validateAccountName o.account

structure CreateProposalOperation where
  creator : AccountName
  receiver : AccountName
  startDate : Nat
  endDate : Nat
  dailyPay : Asset
  subject : Text
  permlink : Text
  deriving DecidableEq, Repr

def CreateProposalOperation.validate (o : CreateProposalOperation) : Except String Unit := do
  validateAccountName o.creator
  validateAccountName o.receiver
  Outcome.ensure (o.startDate < o.endDate) "end date must be greater than start date"
  Outcome.ensure (0 ≤ o.dailyPay.amount) "Daily pay can't be negative value"
  Outcome.ensure (o.dailyPay.symbol = .blurt) "Daily pay should be expressed in BLURT_SYMBOL"
  Outcome.ensure (o.subject ≠ "") "subject is required"
  Outcome.ensure (o.subject.length ≤ blurtProposalSubjectMaxLength) "Subject is too long"
  Outcome.ensure (rules.isUtf8 o.subject) "Subject is not valid UTF8"
  Outcome.ensure (o.permlink ≠ "") "permlink is required"
  validatePermlink rules o.permlink

structure UpdateProposalVotesOperation where
  voter : AccountName
  proposalIds : List Int
  approve : Bool
  deriving DecidableEq, Repr

def UpdateProposalVotesOperation.validate (o : UpdateProposalVotesOperation) :
    Except String Unit := do
  validateAccountName o.voter
  Outcome.ensure (o.proposalIds ≠ []) "proposal_ids.empty() == false"
  Outcome.ensure (o.proposalIds.length ≤ blurtProposalMaxIdsNumber)
    "proposal_ids.size() <= BLURT_PROPOSAL_MAX_IDS_NUMBER"

structure RemoveProposalOperation where
  proposalOwner : AccountName
  proposalIds : List Int
  deriving DecidableEq, Repr

def RemoveProposalOperation.validate (o : RemoveProposalOperation) : Except String Unit := do
  validateAccountName o.proposalOwner
  Outcome.ensure (o.proposalIds ≠ []) "proposal_ids.empty() == false"
  Outcome.ensure (o.proposalIds.length ≤ blurtProposalMaxIdsNumber)
    "proposal_ids.size() <= BLURT_PROPOSAL_MAX_IDS_NUMBER"

/-! ## Custom operations -/

structure CustomOperation where
  requiredAuths : List AccountName
  id : Nat
  data : Text
  deriving DecidableEq, Repr

def CustomOperation.validate (o : CustomOperation) : Except String Unit :=
  Outcome.ensure (0 < o.requiredAuths.length) "at least one account must be specified"

structure CustomJsonOperation where
  requiredAuths : List AccountName
  requiredPostingAuths : List AccountName
  id : Text
  json : Text
  deriving DecidableEq, Repr

def CustomJsonOperation.validate (o : CustomJsonOperation) : Except String Unit := do
  Outcome.ensure (0 < o.requiredAuths.length + o.requiredPostingAuths.length)
    "at least one account must be specified"
  Outcome.ensure (o.id.length ≤ blurtCustomOpIdMaxLength)
    "Operation ID length exceeded. Max: ${max} Current: ${n}"
  Outcome.ensure (rules.isUtf8 o.json) "JSON Metadata not formatted in UTF8"
  Outcome.ensure (rules.isValidJson o.json) "JSON Metadata not valid JSON"

structure CustomBinaryOperation where
  requiredOwnerAuths : List AccountName
  requiredActiveAuths : List AccountName
  requiredPostingAuths : List AccountName
  requiredAuths : List Authority
  id : Text
  data : Text
  deriving DecidableEq, Repr

def CustomBinaryOperation.validate (o : CustomBinaryOperation) : Except String Unit := do
  Outcome.ensure
    (0 < o.requiredOwnerAuths.length + o.requiredActiveAuths.length + o.requiredPostingAuths.length)
    "at least one account must be specified"
  Outcome.ensure (o.id.length ≤ blurtCustomOpIdMaxLength)
    "Operation ID length exceeded. Max: ${max} Current: ${n}"
  Outcome.forEach (fun _ authority => authority.validate) () o.requiredAuths

/-! ## All operations -/

/-- The operations of the `static_variant` that a transaction may contain. -/
inductive Operation
  | vote (o : VoteOperation)
  | comment (o : CommentOperation)
  | transfer (o : TransferOperation)
  | transferToVesting (o : TransferToVestingOperation)
  | withdrawVesting (o : WithdrawVestingOperation)
  | accountCreate (o : AccountCreateOperation)
  | accountUpdate (o : AccountUpdateOperation)
  | witnessUpdate (o : WitnessUpdateOperation)
  | accountWitnessVote (o : AccountWitnessVoteOperation)
  | accountWitnessProxy (o : AccountWitnessProxyOperation)
  | custom (o : CustomOperation)
  | deleteComment (o : DeleteCommentOperation)
  | customJson (o : CustomJsonOperation)
  | commentOptions (o : CommentOptionsOperation)
  | setWithdrawVestingRoute (o : SetWithdrawVestingRouteOperation)
  | claimAccount (o : ClaimAccountOperation)
  | createClaimedAccount (o : CreateClaimedAccountOperation)
  | requestAccountRecovery (o : RequestAccountRecoveryOperation)
  | recoverAccount (o : RecoverAccountOperation)
  | changeRecoveryAccount (o : ChangeRecoveryAccountOperation)
  | escrowTransfer (o : EscrowTransferOperation)
  | escrowDispute (o : EscrowDisputeOperation)
  | escrowRelease (o : EscrowReleaseOperation)
  | escrowApprove (o : EscrowApproveOperation)
  | transferToSavings (o : TransferToSavingsOperation)
  | transferFromSavings (o : TransferFromSavingsOperation)
  | cancelTransferFromSavings (o : CancelTransferFromSavingsOperation)
  | customBinary (o : CustomBinaryOperation)
  | declineVotingRights (o : DeclineVotingRightsOperation)
  | resetAccount (o : ResetAccountOperation)
  | setResetAccount (o : SetResetAccountOperation)
  | claimRewardBalance (o : ClaimRewardBalanceOperation)
  | delegateVestingShares (o : DelegateVestingSharesOperation)
  | witnessSetProperties (o : WitnessSetPropertiesOperation)
  | createProposal (o : CreateProposalOperation)
  | updateProposalVotes (o : UpdateProposalVotesOperation)
  | removeProposal (o : RemoveProposalOperation)
  deriving DecidableEq, Repr

namespace Operation

/-- `operation_validate` -/
def validate : Operation → Except String Unit
  | vote o => o.validate rules
  | comment o => o.validate rules
  | transfer o => o.validate rules
  | transferToVesting o => o.validate
  | withdrawVesting o => o.validate
  | accountCreate o => o.validate rules
  | accountUpdate o => o.validate rules
  | witnessUpdate o => o.validate rules
  | accountWitnessVote o => o.validate
  | accountWitnessProxy o => o.validate
  | custom o => o.validate
  | deleteComment o => o.validate rules
  | customJson o => o.validate rules
  | commentOptions o => o.validate rules
  | setWithdrawVestingRoute o => o.validate
  | claimAccount o => o.validate
  | createClaimedAccount o => o.validate rules
  | requestAccountRecovery o => o.validate
  | recoverAccount o => o.validate
  | changeRecoveryAccount o => o.validate
  | escrowTransfer o => o.validate rules
  | escrowDispute o => o.validate
  | escrowRelease o => o.validate
  | escrowApprove o => o.validate
  | transferToSavings o => o.validate rules
  | transferFromSavings o => o.validate rules
  | cancelTransferFromSavings o => o.validate
  | customBinary o => o.validate
  | declineVotingRights o => o.validate
  | resetAccount o => o.validate
  | setResetAccount o => o.validate
  | claimRewardBalance o => o.validate
  | delegateVestingShares o => o.validate
  | witnessSetProperties o => o.validate rules
  | createProposal o => o.validate rules
  | updateProposalVotes o => o.validate
  | removeProposal o => o.validate

/-- `get_required_owner_authorities` -/
def requiredOwner : Operation → List AccountName
  | accountUpdate o => if o.owner.isSome then [o.account] else []
  | changeRecoveryAccount o => [o.accountToRecover]
  | declineVotingRights o => [o.account]
  | setResetAccount o => if o.currentResetAccount ≠ "" then [o.account] else []
  | customBinary o => o.requiredOwnerAuths
  | _ => []

/-- `get_required_active_authorities` -/
def requiredActive : Operation → List AccountName
  | transfer o => [o.fromAccount]
  | transferToVesting o => [o.fromAccount]
  | withdrawVesting o => [o.account]
  | accountCreate o => [o.creator]
  | accountUpdate o =>
      if o.owner.isNone ∧ (o.active.isSome ∨ o.posting.isSome ∨ o.memoKey.isSome ∨
          0 < o.jsonMetadata.length) then
        [o.account]
      else []
  | witnessUpdate o => [o.owner]
  | accountWitnessVote o => [o.account]
  | accountWitnessProxy o => [o.account]
  | custom o => o.requiredAuths
  | customJson o => o.requiredAuths
  | setWithdrawVestingRoute o => [o.fromAccount]
  | claimAccount o => [o.creator]
  | createClaimedAccount o => [o.creator]
  | requestAccountRecovery o => [o.recoveryAccount]
  | escrowTransfer o => [o.fromAccount]
  | escrowDispute o => [o.who]
  | escrowRelease o => [o.who]
  | escrowApprove o => [o.who]
  | transferToSavings o => [o.fromAccount]
  | transferFromSavings o => [o.fromAccount]
  | cancelTransferFromSavings o => [o.fromAccount]
  | customBinary o => o.requiredActiveAuths
  | resetAccount o => [o.resetAccount]
  | delegateVestingShares o => [o.delegator]
  | createProposal o => [o.creator]
  | updateProposalVotes o => [o.voter]
  | removeProposal o => [o.proposalOwner]
  | _ => []

/-- `get_required_posting_authorities` -/
def requiredPosting : Operation → List AccountName
  | vote o => [o.voter]
  | comment o => [o.author]
  | deleteComment o => [o.author]
  | commentOptions o => [o.author]
  | accountUpdate o =>
      if o.owner.isSome ∨ o.active.isSome ∨ o.posting.isSome ∨ o.memoKey.isSome ∨
          0 < o.jsonMetadata.length then
        []
      else [o.account]
  | customJson o => o.requiredPostingAuths
  | setResetAccount o => if o.currentResetAccount ≠ "" then [] else [o.account]
  | customBinary o => o.requiredPostingAuths
  | claimRewardBalance o => [o.account]
  | _ => []

/-- `get_required_authorities` of an operation: authorities that belong to no account. -/
def requiredAuthorities : Operation → List Authority
  | recoverAccount o => [o.newOwnerAuthority, o.recentOwnerAuthority]
  | witnessSetProperties o =>
      match o.props.key with
      | some signingKey => [{ weightThreshold := 1, keyAuths := [(signingKey, 1)] }]
      -- the authority of the null account is impossible to satisfy
      | none => [{ weightThreshold := 1, accountAuths := [(blurtNullAccount, 1)] }]
  | customBinary o => o.requiredAuths
  | _ => []

/-- The accounts that `get_required_authorities` collects when all of its sets are one. -/
def required (op : Operation) : List AccountName :=
  op.requiredActive ++ op.requiredOwner ++ op.requiredPosting

end Operation

/-- The part of `signed_transaction` that its application reads. -/
structure SignedTransaction where
  operations : List Operation
  /-- `fc::raw::pack_size( trx )` -/
  packSize : Nat
  deriving DecidableEq, Repr

namespace SignedTransaction

/-- `transaction::validate` -/
def validate (trx : SignedTransaction) : Except String Unit := do
  Outcome.ensure (0 < trx.operations.length) "A transaction must have at least one operation"
  Outcome.forEach (fun _ op => op.validate rules) () trx.operations

/-- `transaction::get_required_authorities( required, required, required, other )`: the
elements of a `flat_set`, in its order. -/
def required (trx : SignedTransaction) : List AccountName :=
  (trx.operations.flatMap Operation.required).dedup.insertionSort (· ≤ ·)

end SignedTransaction

end Blurt
