import Blurt.Protocol.Types
import Mathlib.Algebra.Group.Int.Defs

/-! # Constants of the ledger -/

namespace Blurt

/-- `BLURT_NULL_ACCOUNT` -/
def blurtNullAccount : AccountName := "null"

/-- `BLURT_TEMP_ACCOUNT` -/
def blurtTempAccount : AccountName := "temp"

/-- `BLURT_TREASURY_ACCOUNT` -/
def blurtTreasuryAccount : AccountName := "blurt.dao"

/-- `BLURT_REGENT_ACCOUNT` -/
def blurtRegentAccount : AccountName := "blurt.regent"

/-- `BLURT_PROXY_TO_SELF_ACCOUNT` -/
def blurtProxyToSelfAccount : AccountName := ""

/-- `BLURT_ROOT_POST_PARENT` -/
def blurtRootPostParent : AccountName := ""

/-- `BLURT_POST_REWARD_FUND_NAME` -/
def blurtPostRewardFundName : String := "post"

/-- `BLURT_MAX_PROXY_RECURSION_DEPTH` -/
abbrev blurtMaxProxyRecursionDepth : Nat := 4

/-- `BLURT_MAX_WITNESSES` -/
def blurtMaxWitnesses : Nat := 21

/-- `BLURT_MAX_VOTED_WITNESSES_HF17` -/
def blurtMaxVotedWitnessesHf17 : Nat := 20

/-- `BLURT_HARDFORK_REQUIRED_WITNESSES` -/
def blurtHardforkRequiredWitnesses : Nat := 17

/-- `BLURT_MAX_ACCOUNT_WITNESS_VOTES` -/
def blurtMaxAccountWitnessVotes : Nat := 30

/-- `BLURT_MAX_SATOSHIS` -/
def blurtMaxSatoshis : Int := 4611686018427387903

/-- `BLURT_MIN_ACCOUNT_CREATION_FEE` -/
def blurtMinAccountCreationFee : Int := 1

/-- `BLURT_MAX_ACCOUNT_CREATION_FEE` -/
def blurtMaxAccountCreationFee : Int := 1000000000

/-- `BLURT_MIN_BLOCK_SIZE_LIMIT` -/
def blurtMinBlockSizeLimit : Nat := 1024 * 64

/-- `BLURT_SOFT_MAX_BLOCK_SIZE` -/
def blurtSoftMaxBlockSize : Nat := 2 * 1024 * 1024

/-- `BLURT_MAX_WITNESS_URL_LENGTH` -/
def blurtMaxWitnessUrlLength : Nat := 2048

/-- `BLURT_RD_DECAY_DENOM_SHIFT` -/
def blurtRdDecayDenomShift : Nat := 36

/-- `BLURT_RD_MIN_BUDGET` -/
def blurtRdMinBudget : Int := 1

/-- `BLURT_RD_MAX_BUDGET` -/
def blurtRdMaxBudget : Int := 2 ^ 28 - 1

/-- `BLURT_RD_MIN_DECAY` -/
def blurtRdMinDecay : Nat := 2 ^ 6

/-- `BLURT_RD_MAX_DECAY` -/
def blurtRdMaxDecay : Nat := 0xFFFFFFFF

/-- `BLURT_ACCOUNT_SUBSIDY_PRECISION` -/
def blurtAccountSubsidyPrecision : Int := 10000

/-- `BLURT_WITNESS_SUBSIDY_BUDGET_PERCENT` -/
def blurtWitnessSubsidyBudgetPercent : Int := 125 * 100

/-- `BLURT_WITNESS_SUBSIDY_DECAY_PERCENT` -/
def blurtWitnessSubsidyDecayPercent : Nat := blurtMaxWitnesses * blurt100Percent

/-- `BLURT_DECAY_BACKSTOP_PERCENT` -/
def blurtDecayBackstopPercent : Nat := 90 * blurt1Percent

/-- `BLURT_MAX_MEMO_SIZE` -/
def blurtMaxMemoSize : Nat := 2048

/-- `BLURT_COMMENT_TITLE_LIMIT` -/
def blurtCommentTitleLimit : Nat := 256

/-- `BLURT_BENEFICIARY_LIMIT` -/
def blurtBeneficiaryLimit : Nat := 128

/-- `BLURT_CUSTOM_OP_ID_MAX_LENGTH` -/
def blurtCustomOpIdMaxLength : Nat := 32

/-- `BLURT_CUSTOM_OP_DATA_MAX_LENGTH` -/
def blurtCustomOpDataMaxLength : Nat := 8192

/-- `BLURT_MIN_ROOT_COMMENT_INTERVAL`, in seconds. -/
def blurtMinRootCommentInterval : Int := 60 * 5

/-- `BLURT_MIN_REPLY_INTERVAL_HF20`, in seconds. -/
def blurtMinReplyInterval : Int := 3

/-- `BLURT_MIN_COMMENT_EDIT_INTERVAL`, in seconds. -/
def blurtMinCommentEditInterval : Int := 3

/-- `BLURT_MIN_VOTE_INTERVAL_SEC` -/
def blurtMinVoteIntervalSec : Int := 3

/-- `BLURT_MAX_COMMENT_DEPTH` -/
def blurtMaxCommentDepth : Nat := 0xffff

/-- `BLURT_MIN_PERMLINK_LENGTH` -/
def blurtMinPermlinkLength : Nat := 0

/-- `BLURT_CASHOUT_WINDOW_SECONDS` -/
def blurtCashoutWindowSeconds : Nat := 60 * 60 * 24 * 7

/-- `BLURT_UPVOTE_LOCKOUT_SECONDS` -/
def blurtUpvoteLockoutSeconds : Nat := 60 * 60 * 12

/-- `BLURT_VOTE_DUST_THRESHOLD` -/
def blurtVoteDustThreshold : Int := 50000000

/-- `BLURT_MAX_VOTE_CHANGES` -/
def blurtMaxVoteChanges : Int := 5

/-- `BLURT_VOTING_MANA_REGENERATION_SECONDS` -/
def blurtVotingManaRegenerationSeconds : Nat := 5 * 60 * 60 * 24

/-- `BLURT_CURATION_CONSTANT` -/
def blurtCurationConstant : Nat := 2000000000000

/-- `BLURT_REWARD_CONSTANT` -/
def blurtRewardConstant : Nat := 2000000000000

/-- `BLURT_REWARD_CONSTANT_HF4` -/
def blurtRewardConstantHf4 : Nat := 2000000000

/-- `BLURT_REWARD_CONSTANT_HF6` -/
def blurtRewardConstantHf6 : Nat := 200000000000

/-- `BLURT_HARDFORK_0_1_RECENT_CLAIMS` -/
def blurtHardfork01RecentClaims : Nat := 5000000000000000

/-- `BLURT_RECENT_RSHARES_DECAY_TIME_HF19`, in seconds. -/
def blurtRecentRsharesDecayTime : Int := 15 * 24 * 60 * 60

/-- `BLURT_MIN_PAYOUT` -/
def blurtMinPayout : Int := 20

/-- `BLURT_INFLATION_RATE_START_PERCENT` -/
def blurtInflationRateStartPercent : Int := 978

/-- `BLURT_INFLATION_RATE_STOP_PERCENT` -/
def blurtInflationRateStopPercent : Int := 95

/-- `BLURT_INFLATION_NARROWING_PERIOD` -/
def blurtInflationNarrowingPeriod : Nat := 250000

/-- `BLURT_BLOCKS_PER_YEAR` -/
def blurtBlocksPerYear : Int := 365 * 24 * 60 * 60 / 3

/-- `BLURT_BLOCKS_PER_DAY` -/
def blurtBlocksPerDay : Nat := 24 * 60 * 60 / 3

/-- `BLURT_VESTING_WITHDRAW_INTERVALS` -/
def blurtVestingWithdrawIntervals : Int := 13

/-- `BLURT_VESTING_WITHDRAW_INTERVALS_HF5` -/
def blurtVestingWithdrawIntervalsHf5 : Int := 4

/-- `BLURT_VESTING_WITHDRAW_INTERVAL_SECONDS` -/
def blurtVestingWithdrawIntervalSeconds : Nat := 60 * 60 * 24 * 7

/-- `BLURT_MAX_WITHDRAW_ROUTES` -/
def blurtMaxWithdrawRoutes : Nat := 10

/-- `BLURT_SAVINGS_WITHDRAW_TIME`, in seconds. -/
def blurtSavingsWithdrawTime : Nat := 3 * 24 * 60 * 60

/-- `BLURT_SAVINGS_WITHDRAW_REQUEST_LIMIT` -/
def blurtSavingsWithdrawRequestLimit : Nat := 100

/-- `BLURT_OWNER_AUTH_RECOVERY_PERIOD`, in seconds. -/
def blurtOwnerAuthRecoveryPeriod : Nat := 30 * 24 * 60 * 60

/-- `BLURT_ACCOUNT_RECOVERY_REQUEST_EXPIRATION_PERIOD`, in seconds. -/
def blurtAccountRecoveryRequestExpirationPeriod : Nat := 24 * 60 * 60

/-- `BLURT_OWNER_UPDATE_LIMIT`, in seconds. -/
def blurtOwnerUpdateLimit : Int := 60 * 60

/-- `BLURT_TREASURY_FEE` -/
def blurtTreasuryFee : Int := 10 * 1000

/-- `BLURT_PROPOSAL_MAINTENANCE_PERIOD` -/
def blurtProposalMaintenancePeriod : Nat := 3600

/-- `BLURT_PROPOSAL_MAINTENANCE_CLEANUP` -/
def blurtProposalMaintenanceCleanup : Nat := 60 * 60 * 24

/-- `BLURT_PROPOSAL_SUBJECT_MAX_LENGTH` -/
def blurtProposalSubjectMaxLength : Nat := 80

/-- `BLURT_PROPOSAL_MAX_IDS_NUMBER` -/
def blurtProposalMaxIdsNumber : Nat := 5

/-- `daily_seconds` of the proposal processor. -/
def dailySeconds : Nat := 60 * 60 * 24

/-- `total_amount_divider` of the proposal processor. -/
def totalAmountDivider : Int := 100

/-- The length of a month in `process_regent_account`, in blocks. -/
def regentPeriodBlocks : Nat := 864000

end Blurt
