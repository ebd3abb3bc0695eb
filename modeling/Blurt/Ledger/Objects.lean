import Blurt.Foundation.Store
import Blurt.Protocol.Operations
import Mathlib.Algebra.BigOperators.Fin

/-! # The objects of the ledger

Each structure has the fields of the object that an evaluator or a maintenance
procedure reads or writes. An object is stored under its unique key; the key is not
repeated among the fields. Amounts whose symbol is fixed by the type of the field
are plain integers.
-/

namespace Blurt

namespace Ledger

/-- `util::manabar` -/
structure Manabar where
  currentMana : Int := 0
  lastUpdateTime : Nat := 0
  deriving DecidableEq, Repr

/-- `proxied_vsf_votes`, by depth. -/
abbrev ProxiedVotes := Fin blurtMaxProxyRecursionDepth → Int

/-- `account_object` -/
structure Account where
  id : Nat
  memoKey : PublicKey := 0
  proxy : AccountName := blurtProxyToSelfAccount
  lastAccountUpdate : Nat := 0
  created : Nat := 0
  mined : Bool := true
  recoveryAccount : AccountName := ""
  lastAccountRecovery : Nat := 0
  postCount : Nat := 0
  canVote : Bool := true
  votingManabar : Manabar := {}
  balance : Int := 0
  savingsBalance : Int := 0
  savingsWithdrawRequests : Nat := 0
  rewardBlurtBalance : Int := 0
  rewardVestingBalance : Int := 0
  rewardVestingBlurt : Int := 0
  curationRewards : Int := 0
  postingRewards : Int := 0
  vestingShares : Int := 0
  delegatedVestingShares : Int := 0
  receivedVestingShares : Int := 0
  vestingWithdrawRate : Int := 0
  nextVestingWithdrawal : Nat := maximumTime
  withdrawn : Int := 0
  toWithdraw : Int := 0
  withdrawRoutes : Nat := 0
  proxiedVsfVotes : ProxiedVotes := fun _ => 0
  witnessesVotedFor : Nat := 0
  lastPost : Nat := 0
  lastRootPost : Nat := 0
  lastPostEdit : Nat := 0
  lastVoteTime : Nat := 0
  pendingClaimedAccounts : Int := 0
  deriving DecidableEq

/-- `account_object::witness_vote_weight` -/
def Account.witnessVoteWeight (a : Account) : Int :=
  a.vestingShares + ∑ depth, a.proxiedVsfVotes depth

/-- `account_authority_object` -/
structure AccountAuthority where
  owner : Authority
  active : Authority
  posting : Authority
  lastOwnerUpdate : Nat := 0
  deriving DecidableEq, Repr

/-- `owner_authority_history_object` -/
structure OwnerAuthorityHistory where
  account : AccountName
  previousOwnerAuthority : Authority
  lastValidTime : Nat
  deriving DecidableEq, Repr

/-- `account_recovery_request_object` -/
structure AccountRecoveryRequest where
  newOwnerAuthority : Authority
  expires : Nat
  deriving DecidableEq, Repr

/-- `change_recovery_account_request_object` -/
structure ChangeRecoveryAccountRequest where
  recoveryAccount : AccountName
  effectiveOn : Nat
  deriving DecidableEq, Repr

/-- `vesting_delegation_object`, under the delegator and the delegatee. -/
structure VestingDelegation where
  vestingShares : Int
  minDelegationTime : Nat
  deriving DecidableEq, Repr

/-- `vesting_delegation_expiration_object`, under its id. -/
structure VestingDelegationExpiration where
  delegator : AccountName
  vestingShares : Int
  expiration : Nat
  deriving DecidableEq, Repr

/-- `escrow_object`, under `from` and `escrow_id`. -/
structure Escrow where
  id : Nat
  toAccount : AccountName
  agent : AccountName
  ratificationDeadline : Nat
  escrowExpiration : Nat
  blurtBalance : Asset
  pendingFee : Asset
  toApproved : Bool := false
  agentApproved : Bool := false
  disputed : Bool := false
  deriving DecidableEq, Repr

/-- `escrow_object::is_approved` -/
def Escrow.isApproved (e : Escrow) : Bool := e.toApproved && e.agentApproved

/-- `savings_withdraw_object`, under `from` and `request_id`. -/
structure SavingsWithdraw where
  toAccount : AccountName
  memo : Text
  amount : Asset
  complete : Nat
  deriving DecidableEq, Repr

/-- `withdraw_vesting_route_object`, under `from_account` and `to_account`. -/
structure WithdrawVestingRoute where
  percent : Nat
  autoVest : Bool
  deriving DecidableEq, Repr

/-- `curve_id` -/
inductive CurveId
  | quadratic
  | boundedCuration
  | linear
  | squareRoot
  | convergentLinear
  | convergentSquareRoot
  deriving DecidableEq, Repr

/-- `reward_fund_object`, under its id. -/
structure RewardFund where
  name : String
  rewardBalance : Int := 0
  recentClaims : Nat := 0
  lastUpdate : Nat := 0
  contentConstant : Nat := 0
  percentCurationRewards : Nat := 0
  percentContentRewards : Nat := 0
  authorRewardCurve : CurveId
  curationRewardCurve : CurveId
  deriving DecidableEq, Repr

/-- `comment_object`, under its id. -/
structure Comment where
  category : Text
  parentAuthor : AccountName
  parentPermlink : Text
  author : AccountName
  permlink : Text
  lastUpdate : Nat := 0
  created : Nat := 0
  active : Nat := 0
  lastPayout : Nat := 0
  depth : Nat := 0
  children : Nat := 0
  netRshares : Int := 0
  absRshares : Int := 0
  voteRshares : Int := 0
  childrenAbsRshares : Int := 0
  cashoutTime : Nat := 0
  maxCashoutTime : Nat := 0
  totalVoteWeight : Nat := 0
  rewardWeight : Nat := 0
  totalPayoutValue : Int := 0
  curatorPayoutValue : Int := 0
  beneficiaryPayoutValue : Int := 0
  authorRewards : Int := 0
  netVotes : Int := 0
  rootComment : Nat
  maxAcceptedPayout : Asset := .blurt 1000000000
  percentBlurt : Nat := blurt100Percent
  allowReplies : Bool := true
  allowVotes : Bool := true
  allowCurationRewards : Bool := true
  beneficiaries : List BeneficiaryRoute := []
  deriving DecidableEq, Repr

/-- `comment_vote_object`, under the id of the comment and the name of the voter. -/
structure CommentVote where
  weight : Nat := 0
  rshares : Int := 0
  votePercent : Int := 0
  lastUpdate : Nat := 0
  numChanges : Int := 0
  deriving DecidableEq, Repr

/-- `chain_properties` -/
structure ChainProperties where
  accountCreationFee : Asset := .blurt blurtMinAccountCreationFee
  maximumBlockSize : Nat := blurtMinBlockSizeLimit * 2
  accountSubsidyBudget : Int := 797
  accountSubsidyDecay : Nat := 347321
  operationFlatFee : Asset := .blurt 50
  bandwidthKbytesFee : Asset := .blurt 10
  deriving DecidableEq, Repr

/-- `witness_schedule_type` -/
inductive WitnessScheduleType
  | elected
  | timeshare
  | none
  deriving DecidableEq, Repr

/-- `witness_object` -/
structure Witness where
  id : Nat := 0
  created : Nat := 0
  url : Text := ""
  signingKey : PublicKey := 0
  props : ChainProperties := {}
  votes : Int := 0
  schedule : WitnessScheduleType := .none
  virtualLastUpdate : Nat := 0
  virtualPosition : Nat := 0
  virtualScheduledTime : Nat := UInt128.maxValue
  runningVersion : Nat := 0
  hardforkVersionVote : Nat := 0
  hardforkTimeVote : Nat := blurtGenesisTime
  availableWitnessAccountSubsidies : Int := 0
  deriving DecidableEq, Repr

/-- `rd_dynamics_params`, with its `rd_decay_params` unfolded. -/
structure RdDynamicsParams where
  resourceUnit : Nat := 0
  budgetPerTimeUnit : Int := 0
  poolEq : Nat := 0
  maxPoolSize : Nat := 0
  decayPerTimeUnit : Nat := 0
  decayPerTimeUnitDenomShift : Nat := 0
  minDecay : Int := 0
  deriving DecidableEq, Repr

/-- `witness_schedule_object` -/
structure WitnessSchedule where
  currentVirtualTime : Nat := 0
  nextShuffleBlockNum : Nat := 1
  /-- The array `current_shuffled_witnesses`, of `BLURT_MAX_WITNESSES` names. -/
  currentShuffledWitnesses : List AccountName := []
  numScheduledWitnesses : Nat := 1
  electedWeight : Nat := 1
  timeshareWeight : Nat := 5
  witnessPayNormalizationFactor : Nat := 25
  medianProps : ChainProperties := {}
  majorityVersion : Nat := 0
  maxVotedWitnesses : Nat := blurtMaxVotedWitnessesHf17
  hardforkRequiredWitnesses : Nat := blurtHardforkRequiredWitnesses
  accountSubsidyRd : RdDynamicsParams := {}
  accountSubsidyWitnessRd : RdDynamicsParams := {}
  deriving DecidableEq, Repr

/-- `hardfork_property_object`, without the list of its processed hardforks. A version is
the number `v_num`. -/
structure HardforkProperty where
  lastHardfork : Nat := 0
  currentHardforkVersion : Nat := 0
  nextHardfork : Nat := 0
  nextHardforkTime : Nat := 0
  deriving DecidableEq, Repr

/-- `proposal_object`, under its id. -/
structure Proposal where
  creator : AccountName
  receiver : AccountName
  startDate : Nat
  endDate : Nat
  dailyPay : Asset
  subject : Text
  permlink : Text
  totalVotes : Nat := 0
  removed : Bool := false
  deriving DecidableEq, Repr

/-- `proposal_object::get_end_date_with_delay` -/
def Proposal.endDateWithDelay (p : Proposal) : Nat :=
  addSeconds p.endDate blurtProposalMaintenanceCleanup

/-- `dynamic_global_property_object`, without what block production keeps there. -/
structure GlobalProperties where
  headBlockNumber : Nat := 0
  time : Nat
  currentWitness : AccountName
  maximumBlockSize : Nat := 0
  currentSupply : Int := 0
  totalVestingFundBlurt : Int := 0
  totalVestingShares : Int := 0
  totalRewardFundBlurt : Int := 0
  pendingRewardedVestingShares : Int := 0
  pendingRewardedVestingBlurt : Int := 0
  votePowerReserveRate : Nat := 10
  delegationReturnPeriod : Nat := blurtVotingManaRegenerationSeconds
  reverseAuctionSeconds : Nat := 60 * 5
  availableAccountSubsidies : Int := 0
  nextMaintenanceTime : Nat := 0
  lastBudgetTime : Nat := 0
  contentRewardPercent : Nat := 65 * blurt1Percent
  vestingRewardPercent : Nat := 15 * blurt1Percent
  spsFundPercent : Nat := 10 * blurt1Percent
  spsIntervalLedger : Int := 0
  regentInitVestingShares : Int := 0
  regentVestingShares : Int := 0
  deriving DecidableEq, Repr

/-- The `_next_id` of the indexes whose ids matter. -/
structure NextIds where
  account : Nat := 0
  ownerHistory : Nat := 0
  delegationExpiration : Nat := 0
  escrow : Nat := 0
  witness : Nat := 0
  comment : Nat := 0
  proposal : Nat := 0
  deriving DecidableEq, Repr

/-- The object database. -/
structure Database where
  dgp : GlobalProperties
  wso : WitnessSchedule := {}
  /-- `hardfork_property_object::processed_hardforks` -/
  processedHardforks : List Nat
  hardforks : HardforkProperty := {}
  accounts : Store AccountName Account := ∅
  authorities : Store AccountName AccountAuthority := ∅
  ownerHistory : Store Nat OwnerAuthorityHistory := ∅
  recoveryRequests : Store AccountName AccountRecoveryRequest := ∅
  changeRecoveryRequests : Store AccountName ChangeRecoveryAccountRequest := ∅
  delegations : Store (AccountName × AccountName) VestingDelegation := ∅
  delegationExpirations : Store Nat VestingDelegationExpiration := ∅
  escrows : Store (AccountName × Nat) Escrow := ∅
  savingsWithdraws : Store (AccountName × Nat) SavingsWithdraw := ∅
  withdrawRoutes : Store (AccountName × AccountName) WithdrawVestingRoute := ∅
  /-- `decline_voting_rights_request_object::effective_date` -/
  declineRequests : Store AccountName Nat := ∅
  rewardFunds : Store Nat RewardFund := ∅
  comments : Store Nat Comment := ∅
  commentVotes : Store (Nat × AccountName) CommentVote := ∅
  witnesses : Store AccountName Witness := ∅
  /-- `witness_vote_object`, under the account and the witness. -/
  witnessVotes : Store (AccountName × AccountName) Unit := ∅
  proposals : Store Nat Proposal := ∅
  /-- `proposal_vote_object`, under the proposal and the voter. -/
  proposalVotes : Store (Nat × AccountName) Unit := ∅
  nextIds : NextIds := {}

end Ledger

end Blurt
