import Blurt.Ledger.CommentEvaluators
import Blurt.Ledger.Reward

/-! # Payouts of comments

Seven days after it was posted, a comment is paid from the reward fund: a part to the voters
by the weight of their votes, the rest to the beneficiaries and to the author.
-/

namespace Blurt

namespace Ledger

namespace Database

/-! ## Curators -/

/-- The votes of a comment in the order in which `pay_curators` pays them. -/
def curatorsOf (db : Database) (id : Nat) : List (AccountName × CommentVote) :=
  let accountId (name : AccountName) := ((db.accounts.find? name).map (·.id)).getD 0
  (db.commentVotes.ordered
    (fun x y => y.2.weight < x.2.weight ∨
      x.2.weight = y.2.weight ∧ accountId x.1.2 ≤ accountId y.1.2)
    fun key _ => key.1 = id).map fun row => (row.1.2, row.2)

/-- The part of the curation rewards that one vote claims. -/
def curationClaim (maxRewards : Int) (weight totalWeight : Nat) : Except String Int := do
  let share ← UInt128.div (UInt128.wrap (UInt128.ofInt maxRewards * weight)) totalWeight
  let claim ← UInt128.toUInt64 share
  return wrapInt64 claim

/-- A turn of the loop of `pay_curators`, with the rewards that are not claimed yet. -/
def payCurator (maxRewards : Int) (totalWeight : Nat) (state : Database × Int)
    (item : AccountName × CommentVote) : Except String (Database × Int) := do
  let claim ← curationClaim maxRewards item.2.weight totalWeight
  if claim ≠ 0 then
    let unclaimedRewards ← shareType (state.2 - claim)
    let _ ← state.1.getAccount item.1
    let (paid, _) ← state.1.createRewardVesting item.1 (.blurt claim)
    let counted ← paid.modifyAccount item.1 fun a => do
      let curationRewards ← shareType (a.curationRewards + claim)
      return { a with curationRewards }
    return (counted, unclaimedRewards)
  else
    return state

/-- `pay_curators`: what is left of `max_rewards` after its last line, and the unclaimed
rewards that it returns. -/
def payCurators (db : Database) (id : Nat) (c : Comment) (maxRewards : Int) :
    Except String (Database × Int × Int) := do
  if !c.allowCurationRewards then
    return (db, 0, 0)
  else
    let (paid, unclaimedRewards) ←
      if 0 < c.totalVoteWeight then
        Outcome.forEach (payCurator maxRewards c.totalVoteWeight) (db, maxRewards)
          (db.curatorsOf id)
      else .ok (db, maxRewards)
    let claimedRewards ← shareType (maxRewards - unclaimedRewards)
    return (paid, claimedRewards, unclaimedRewards)

/-! ## Beneficiaries -/

/-- A turn of the loop over the beneficiaries, with the total of what they were paid. -/
def payBeneficiary (authorTokens : Int) (state : Database × Int) (b : BeneficiaryRoute) :
    Except String (Database × Int) := do
  let product ← shareType (authorTokens * b.weight)
  let benefactorTokens ← safeDiv product blurt100Percent
  let treasured ←
    if b.account = blurtTreasuryAccount then
      state.1.adjustBalance blurtTreasuryAccount (.blurt benefactorTokens)
    else .ok state.1
  let _ ← treasured.getAccount b.account
  let benefactorVestingBlurt := if b.account = blurtTreasuryAccount then 0 else benefactorTokens
  let (paid, _) ← treasured.createRewardVesting b.account (.blurt benefactorVestingBlurt)
  let totalBeneficiary ← shareType (state.2 + benefactorTokens)
  return (paid, totalBeneficiary)

/-! ## The author -/

/-- The end of a payout, where the author is paid. The part of the author that is called
liquid is in no balance. -/
def payAuthor (db : Database) (id : Nat) (comment : Comment)
    (authorTokens curationTokens totalBeneficiary : Int) : Except String Database := do
  let ownTokens ← shareType (authorTokens - totalBeneficiary)
  let product ← shareType (ownTokens * comment.percentBlurt)
  let authorBlurtTokens ← safeDiv product (4 * blurt100Percent)
  let vestingBlurt ← shareType (ownTokens - authorBlurtTokens)
  let _ ← db.getAccount comment.author
  let (paid, _) ← db.createRewardVesting comment.author (.blurt vestingBlurt)
  let c ← paid.getCommentById id
  let totalPayoutValue ← shareType (c.totalPayoutValue + (authorBlurtTokens + vestingBlurt))
  let curatorPayoutValue ← shareType (c.curatorPayoutValue + curationTokens)
  let beneficiaryPayoutValue ← shareType (c.beneficiaryPayoutValue + totalBeneficiary)
  let authorRewards ← shareType (c.authorRewards + ownTokens)
  let counted := paid.setComment id
    { c with totalPayoutValue, curatorPayoutValue, beneficiaryPayoutValue, authorRewards }
  counted.modifyAccount comment.author fun a => do
    let postingRewards ← shareType (a.postingRewards + ownTokens)
    return { a with postingRewards }

/-- The payout of a comment that has earned a reward, and what it claims from the fund. -/
def payReward (db : Database) (id : Nat) (comment : Comment) (reward : Int) :
    Except String (Database × Int) := do
  let rewardTokens := UInt128.ofInt reward
  let (_, rf) ← db.getRewardFund
  let curation ← UInt128.toUInt64
    (UInt128.wrap (rewardTokens * rf.percentCurationRewards) / blurt100Percent)
  let tokens ← UInt128.toUInt64 rewardTokens
  let authorTokens ← shareType (tokens - wrapInt64 curation)
  let (curated, curationTokens, _) ← db.payCurators id comment (wrapInt64 curation)
  let claimedReward ← shareType (authorTokens + curationTokens)
  let (benefited, totalBeneficiary) ←
    Outcome.forEach (payBeneficiary authorTokens) (curated, 0) comment.beneficiaries
  let paid ← benefited.payAuthor id comment authorTokens curationTokens totalBeneficiary
  return (paid, claimedReward)

/-- A comment after its payout. -/
def Comment.cashedOut (now : Nat) (c : Comment) : Comment :=
  { c with
    netRshares := if 0 < c.netRshares then 0 else c.netRshares
    childrenAbsRshares := 0
    absRshares := 0
    voteRshares := 0
    totalVoteWeight := 0
    maxCashoutTime := maximumTime
    cashoutTime := maximumTime
    lastPayout := now }

/-- The fund context of one reward fund in `process_comment_cashout`. -/
structure FundContext where
  recentClaims : Nat
  rewardBalance : Int
  blurtAwarded : Int := 0
  deriving DecidableEq, Repr

/-- The claim that a comment has on its reward fund. -/
def commentReward (db : Database) (fund : FundContext) (comment : Comment) : Except String Nat := do
  let (_, rf) ← db.getRewardFund
  getRshareReward
    { rshares := comment.netRshares
      rewardWeight := comment.rewardWeight
      maxPayout := comment.maxAcceptedPayout
      totalRewardShares2 := fund.recentClaims
      totalRewardFundBlurt := fund.rewardBalance
      rewardCurve := rf.authorRewardCurve
      contentConstant := rf.contentConstant } db.dgp db.getHardfork

/-- `cashout_comment_helper`, without the forwarding of the curation remainder, which no
caller asks for. Votes are removed in a build with `CLEAR_VOTES`. -/
def cashoutCommentHelper (clearVotes : Bool) (db : Database) (fund : FundContext) (id : Nat)
    (comment : Comment) : Except String (Database × Int) := do
  let (paid, claimedReward) ←
    if 0 < comment.netRshares then do
      let reward ← db.commentReward fund comment
      if 0 < reward then db.payReward id comment (wrapInt64 reward) else .ok (db, 0)
    else .ok (db, 0)
  let c ← paid.getCommentById id
  let updated := paid.setComment id (Comment.cashedOut db.dgp.time c)
  let commentVotes :=
    if clearVotes then
      (updated.votersOf id).foldl (fun votes voter => votes.remove (id, voter))
        updated.commentVotes
    else updated.commentVotes
  return ({ updated with commentVotes }, claimedReward)

/-! ## The loops -/

/-- The decay of the recent claims of a reward fund. -/
def RewardFund.decayClaims (now : Nat) (rfo : RewardFund) : Except String RewardFund := do
  let deltaSeconds : Int := (now : Int) - rfo.lastUpdate
  let recentClaims ←
    if deltaSeconds < blurtRecentRsharesDecayTime then do
      let decay ← UInt128.div (UInt128.wrap (rfo.recentClaims * UInt128.ofInt deltaSeconds))
        (UInt128.ofInt blurtRecentRsharesDecayTime)
      .ok (UInt128.sub rfo.recentClaims decay)
    else .ok rfo.recentClaims
  return { rfo with recentClaims, lastUpdate := now }

/-- The comments that are due for payout, in the order of `by_cashout_time`. -/
def dueComments (db : Database) : List (Nat × Comment) :=
  db.comments.due
    (fun x y => x.2.cashoutTime < y.2.cashoutTime ∨
      x.2.cashoutTime = y.2.cashoutTime ∧ x.1 ≤ y.1)
    fun row => row.2.cashoutTime ≤ db.dgp.time

/-- The first loop of `process_comment_cashout`, over the reward funds. -/
def openFunds (db : Database) : Except String (Database × List FundContext) :=
  Outcome.forEach (fun (state : Database × List FundContext) row => do
      let decayed ← RewardFund.decayClaims db.dgp.time row.2
      let context : FundContext :=
        { recentClaims := decayed.recentClaims, rewardBalance := decayed.rewardBalance }
      return ({ state.1 with rewardFunds := state.1.rewardFunds.set row.1 decayed },
        state.2 ++ [context]))
    (db, []) (db.rewardFunds.ordered (fun x y => x.1 ≤ y.1) fun _ _ => true)

/-- The claims of a fund after a due comment was added to them. -/
def addClaim (db : Database) (funds : List FundContext) (row : Nat × Comment) :
    Except String (List FundContext) := do
  if 0 < row.2.netRshares then
    let (fundId, rf) ← db.getRewardFund
    let fund ← Outcome.require funds[fundId]? "out of range"
    let curve ← evaluateRewardCurve (UInt128.ofInt row.2.netRshares) rf.authorRewardCurve
      rf.contentConstant
    return funds.set fundId { fund with recentClaims := UInt128.wrap (fund.recentClaims + curve) }
  else
    return funds

/-- The body of the loop that pays the due comments. -/
def cashoutComment (clearVotes : Bool) (state : Database × List FundContext)
    (row : Nat × Comment) : Except String (Database × List FundContext) := do
  let (fundId, _) ← state.1.getRewardFund
  let fund ← Outcome.require state.2[fundId]? "out of range"
  let (paid, claimedReward) ← cashoutCommentHelper clearVotes state.1 fund row.1 row.2
  let blurtAwarded ← shareType (fund.blurtAwarded + claimedReward)
  return (paid, state.2.set fundId { fund with blurtAwarded })

/-- One fund is written back. -/
def closeFund (db : Database) (item : FundContext × Nat) : Except String Database := do
  let rfo ← Outcome.require (db.rewardFunds.find? item.2) "unknown key"
  let rewardBalance ← shareType (rfo.rewardBalance - item.1.blurtAwarded)
  let closed := { rfo with recentClaims := item.1.recentClaims, rewardBalance }
  return { db with rewardFunds := db.rewardFunds.set item.2 closed }

/-- `process_comment_cashout` -/
def processCommentCashout (clearVotes : Bool) (db : Database) : Except String Database := do
  let (opened, contexts) ← db.openFunds
  let funds ← Outcome.forEach opened.addClaim contexts opened.dueComments
  let (paid, awarded) ← Outcome.drain (fun state => state.1.dueComments.head?)
    (cashoutComment clearVotes) (opened.comments.rows.length + 1) (opened, funds)
  Outcome.forEach closeFund paid awarded.zipIdx

end Database

end Ledger

end Blurt
