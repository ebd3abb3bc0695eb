import Blurt.Ledger.Reward
import Blurt.Ledger.VestingEvaluators

/-! # Evaluators of comments and votes on comments -/

namespace Blurt

namespace Ledger

/-- `validate_permlink_0_1` -/
def validatePermlink01 (permlink : Text) : Except String Unit := do
  Outcome.ensure
    (blurtMinPermlinkLength < permlink.length ∧ permlink.length < blurtMaxPermlinkLength)
    "Permlink is not a valid size."
  Outcome.ensure (permlink.toList.all fun c => isLetterOrDigit c || c = '-')
    "Invalid permlink character: ${s}"

namespace Database

/-! ## Posts -/

/-- The loop over the ancestors of a comment, from the parent under `id` on. -/
def updateAncestors (db : Database) (change : Nat → Nat) (id : Nat) :
    (turns : Nat) → Except String Database
  | 0 => .error "the parents of a comment form a cycle"
  | turns + 1 => do
      let parent ← db.getCommentById id
      let updated := db.setComment id
        { parent with children := change parent.children, active := db.dgp.time }
      if parent.parentAuthor ≠ blurtRootPostParent then
        let (next, _) ← updated.getComment parent.parentAuthor parent.parentPermlink
        updated.updateAncestors change next turns
      else
        return updated

/-- The comment that `comment_evaluator` creates. -/
def newComment (db : Database) (id : Nat) (parent : Option Comment) (o : CommentOperation) :
    Comment :=
  let now := db.dgp.time
  { category := (parent.map (·.category)).getD o.parentPermlink
    parentAuthor := (parent.map (·.author)).getD ""
    parentPermlink := (parent.map (·.permlink)).getD o.parentPermlink
    author := o.author
    permlink := o.permlink
    lastUpdate := now
    created := now
    active := now
    lastPayout := 0
    depth := (parent.map fun p => (p.depth + 1) % 2 ^ 16).getD 0
    maxCashoutTime := maximumTime
    rewardWeight := blurt100Percent
    percentBlurt := if db.hasHardfork 6 then blurt100Percent else 0
    rootComment := (parent.map (·.rootComment)).getD id
    cashoutTime := addSeconds now blurtCashoutWindowSeconds }

/-- The parent that a comment operation names. -/
def findParent (db : Database) (o : CommentOperation) : Except String (Option (Nat × Comment)) := do
  if o.parentAuthor = blurtRootPostParent then
    return none
  else
    let parent ← db.getComment o.parentAuthor o.parentPermlink
    Outcome.ensure (parent.2.depth < blurtMaxCommentDepth)
      "Comment is nested ${x} posts deep, maximum depth is ${y}."
    return some parent

/-- The branch of `comment_evaluator` for a new comment. -/
def createComment (db : Database) (parent : Option (Nat × Comment)) (o : CommentOperation) :
    Except String Database := do
  let now := db.dgp.time
  let auth ← db.getAccount o.author
  match parent with
  | some (_, p) =>
      let root ← db.getCommentById p.rootComment
      Outcome.ensure root.allowReplies "The parent comment has disabled replies."
      Outcome.ensure (blurtMinReplyInterval ≤ (now : Int) - auth.lastPost)
        "You may only comment once every 3 seconds."
  | none =>
      Outcome.ensure (blurtMinRootCommentInterval < (now : Int) - auth.lastRootPost)
        "You may only post once every 5 minutes."
  let posted ← db.modifyAccount o.author fun a => .ok { a with
    lastRootPost := if o.parentAuthor = blurtRootPostParent then now else a.lastRootPost
    lastPost := now
    lastPostEdit := now
    postCount := increment 32 a.postCount }
  validatePermlink01 o.parentPermlink
  validatePermlink01 o.permlink
  let id := posted.nextIds.comment
  let created := { posted with
    comments := posted.comments.set id (posted.newComment id (parent.map (·.2)) o)
    nextIds := { posted.nextIds with comment := id + 1 } }
  match parent with
  | some (parentId, _) =>
      created.updateAncestors (increment 32) parentId (created.comments.rows.length + 1)
  | none => return created

/-- The branch of `comment_evaluator` for an edit. -/
def editComment (db : Database) (parent : Option (Nat × Comment)) (id : Nat) (comment : Comment)
    (o : CommentOperation) : Except String Database := do
  let now := db.dgp.time
  let auth ← db.getAccount o.author
  Outcome.ensure (blurtMinCommentEditInterval ≤ (now : Int) - auth.lastPostEdit)
    "Can only perform one comment edit per block."
  let parentAuthor := if parent.isNone then "" else o.parentAuthor
  Outcome.ensure (comment.parentAuthor = parentAuthor) "The parent of a comment cannot change."
  Outcome.ensure (comment.parentPermlink = o.parentPermlink)
    "The permlink of a comment cannot change."
  let edited := db.setComment id { comment with lastUpdate := now, active := now }
  edited.modifyAccount o.author fun a => .ok { a with lastPostEdit := now }

/-- `comment_evaluator::do_apply` -/
def comment (rules : TextRules) (db : Database) (o : CommentOperation) :
    Except String Database := do
  Outcome.ensure (o.title.length + o.body.length + o.jsonMetadata.length ≠ 0)
    "Cannot update comment because nothing appears to be changing."
  let _ ← db.getAccount o.author
  let parent ← db.findParent o
  Outcome.ensure (rules.isUtf8 o.jsonMetadata) "JSON Metadata must be UTF-8"
  match db.findComment o.author o.permlink with
  | none => db.createComment parent o
  | some (id, existing) => db.editComment parent id existing o

/-- `comment_options_extension_visitor`, on the comment under `id`. -/
def applyOptionsExtension (id : Nat) (db : Database) (extension : CommentOptionsExtension) :
    Except String Database := do
  let c ← db.getCommentById id
  match extension with
  | .payoutBeneficiaries beneficiaries =>
      Outcome.ensure (c.beneficiaries = []) "Comment already has beneficiaries specified."
      Outcome.ensure (c.absRshares = 0)
        "Comment must not have been voted on before specifying beneficiaries."
      Outcome.ensure (∀ b ∈ beneficiaries, (db.accounts.find? b.account).isSome)
        "Beneficiary must exist."
      return db.setComment id { c with beneficiaries := c.beneficiaries ++ beneficiaries }
  | .payoutBlurt percentBlurt =>
      Outcome.ensure (percentBlurt ≤ c.percentBlurt)
        "A comment cannot accept a greater percent BLURT."
      return db.setComment id { c with percentBlurt }

/-- `comment_options_evaluator::do_apply` -/
def commentOptions (db : Database) (o : CommentOptionsOperation) : Except String Database := do
  let (id, comment) ← db.getComment o.author o.permlink
  Outcome.ensure (o.maxAcceptedPayout.symbol = comment.maxAcceptedPayout.symbol)
    "a.symbol == b.symbol"
  Outcome.ensure
    ((!o.allowCurationRewards ∨ !o.allowVotes ∨
      o.maxAcceptedPayout.amount < comment.maxAcceptedPayout.amount) → comment.absRshares = 0)
    "One of the included comment options requires the comment to have no rshares allocated to it."
  Outcome.ensure (o.allowCurationRewards → comment.allowCurationRewards)
    "Curation rewards cannot be re-enabled."
  Outcome.ensure (o.allowVotes → comment.allowVotes) "Voting cannot be re-enabled."
  Outcome.ensure (o.maxAcceptedPayout.amount ≤ comment.maxAcceptedPayout.amount)
    "A comment cannot accept a greater payout."
  let updated := db.setComment id { comment with
    maxAcceptedPayout := o.maxAcceptedPayout
    allowVotes := o.allowVotes
    allowCurationRewards := o.allowCurationRewards }
  Outcome.forEach (applyOptionsExtension id) updated o.extensions

/-- The voters of a comment, in the order of `by_comment_voter`. -/
def votersOf (db : Database) (id : Nat) : List AccountName :=
  let accountId (name : AccountName) := ((db.accounts.find? name).map (·.id)).getD 0
  (db.commentVotes.ordered (fun x y => accountId x.1.2 ≤ accountId y.1.2)
    fun key _ => key.1 = id).map (·.1.2)

/-- `delete_comment_evaluator::do_apply` -/
def deleteComment (db : Database) (o : DeleteCommentOperation) : Except String Database := do
  let (id, comment) ← db.getComment o.author o.permlink
  Outcome.ensure (comment.children = 0) "Cannot delete a comment with replies."
  Outcome.ensure (comment.cashoutTime ≠ maximumTime)
    "comment.cashout_time != fc::time_point_sec::maximum()"
  Outcome.ensure (comment.netRshares ≤ 0) "Cannot delete a comment with net positive votes."
  let commentVotes := (db.votersOf id).foldl
    (fun votes voter => votes.remove (id, voter)) db.commentVotes
  let cleared := { db with commentVotes }
  let orphaned ←
    if comment.parentAuthor ≠ blurtRootPostParent then do
      let (parent, _) ← cleared.getComment comment.parentAuthor comment.parentPermlink
      cleared.updateAncestors (decrement 32) parent (cleared.comments.rows.length + 1)
    else
      .ok cleared
  return { orphaned with comments := orphaned.comments.remove id }

/-! ## Votes -/

/-- What a vote takes from the mana of the voter. -/
def usedMana (dgp : GlobalProperties) (currentMana weight : Int) : Except String Int := do
  let scaled := UInt128.wrap (UInt128.ofInt currentMana * weight.natAbs * (60 * 60 * 24))
  let maxVoteDenom := dgp.votePowerReserveRate * blurtVotingManaRegenerationSeconds % 2 ^ 32
  Outcome.ensure (0 < maxVoteDenom) "max_vote_denom > 0"
  let share ← UInt128.div scaled blurt100Percent
  let used ← UInt128.div (UInt128.wrap (share + (maxVoteDenom - 1))) maxVoteDenom
  UInt128.toInt64 used

/-- The rshares of a vote that used `used` of the voter's mana. -/
def voteRshares (db : Database) (comment : Comment) (used : Int) : Except String Int := do
  let dusted := if db.hasHardfork 4 then used else wrapInt64 (used - blurtVoteDustThreshold)
  let absRshares := max 0 dusted
  let cashoutDelta := comment.cashoutTime - db.dgp.time
  if cashoutDelta < blurtUpvoteLockoutSeconds then
    let faded ← UInt128.div (UInt128.wrap (UInt128.ofInt absRshares * cashoutDelta))
      blurtUpvoteLockoutSeconds
    let rshares ← UInt128.toUInt64 faded
    return wrapInt64 rshares
  else
    return absRshares

/-- The weights of a first vote for curation: what it adds to the comment, and its own
after the reverse auction. -/
def curationWeight (db : Database) (comment : Comment) (rshares oldVoteRshares : Int) :
    Except String (Nat × Nat) := do
  let (_, fund) ← db.getRewardFund
  if 0 < rshares ∧ comment.lastPayout = 0 ∧ comment.allowCurationRewards ∧
      0 < fund.percentCurationRewards then
    let contentConstant :=
      if db.hasHardfork 4 then blurtCurationConstant else fund.contentConstant
    let oldCurve ← evaluateRewardCurve (UInt128.ofInt oldVoteRshares)
      fund.curationRewardCurve contentConstant
    let oldWeight ← UInt128.toUInt64 oldCurve
    let newCurve ← evaluateRewardCurve (UInt128.ofInt comment.voteRshares)
      fund.curationRewardCurve contentConstant
    let newWeight ← UInt128.toUInt64 newCurve
    if newWeight ≤ oldWeight then
      return (0, 0)
    else
      let maxVoteWeight := newWeight - oldWeight
      let deltaT := min (db.dgp.time - comment.created) db.dgp.reverseAuctionSeconds
      let discounted ← UInt128.div (UInt128.wrap (maxVoteWeight * deltaT))
        db.dgp.reverseAuctionSeconds
      let weight ← UInt128.toUInt64 discounted
      return (maxVoteWeight, weight)
  else
    return (0, 0)

/-- A comment after a first vote. -/
def Comment.addVote (hardfork4 : Bool) (rshares absRshares : Int) (c : Comment) :
    Except String Comment := do
  let netRshares ← shareType (c.netRshares + rshares)
  let totalAbsRshares ← shareType (c.absRshares + absRshares)
  let voteRshares ← shareType (if 0 < rshares then c.voteRshares + rshares else c.voteRshares)
  let netVotes :=
    if 0 < rshares then c.netVotes + 1
    else if !hardfork4 || rshares < 0 then c.netVotes - 1
    else c.netVotes
  return { c with netRshares, voteRshares, netVotes, absRshares := totalAbsRshares }

/-- What a changed vote does to the count of votes. -/
def netVotesChange (rshares previous : Int) : Int :=
  if 0 < rshares ∧ previous < 0 then 2
  else if 0 < rshares ∧ previous = 0 then 1
  else if rshares = 0 ∧ previous < 0 then 1
  else if rshares = 0 ∧ 0 < previous then -1
  else if rshares < 0 ∧ previous = 0 then -1
  else if rshares < 0 ∧ 0 < previous then -2
  else 0

/-- A comment after a changed vote. -/
def Comment.changeVote (rshares absRshares previous : Int) (c : Comment) :
    Except String Comment := do
  let withdrawn ← shareType (c.netRshares - previous)
  let netRshares ← shareType (withdrawn + rshares)
  let totalAbsRshares ← shareType (c.absRshares + absRshares)
  return { c with
    netRshares
    absRshares := totalAbsRshares
    netVotes := c.netVotes + netVotesChange rshares previous }

/-- The accounting of a vote at the voter and at the root of the discussion. -/
def recordVote (db : Database) (voter : AccountName) (used absRshares : Int) (root : Nat) :
    Except String Database := do
  let charged ← db.modifyAccount voter fun a => .ok { a with
    votingManabar := a.votingManabar.useMana used
    lastVoteTime := db.dgp.time }
  let c ← charged.getCommentById root
  let childrenAbsRshares ← shareType (c.childrenAbsRshares + absRshares)
  return charged.setComment root { c with childrenAbsRshares }

/-- The branch of `vote_evaluator` for a first vote. -/
def castVote (db : Database) (id : Nat) (o : VoteOperation) (used absRshares : Int) :
    Except String Database := do
  Outcome.ensure (o.weight ≠ 0) "Vote weight cannot be 0."
  let rshares := if o.weight < 0 then -absRshares else absRshares
  let comment ← db.getCommentById id
  let voted ← Comment.addVote (db.hasHardfork 4) rshares absRshares comment
  let recorded ← (db.setComment id voted).recordVote o.voter used absRshares comment.rootComment
  let current ← recorded.getCommentById id
  let (maxVoteWeight, weight) ← recorded.curationWeight current rshares comment.voteRshares
  let vote : CommentVote :=
    { weight, rshares, votePercent := o.weight, lastUpdate := db.dgp.time }
  let cast := { recorded with
    commentVotes := recorded.commentVotes.set (id, o.voter) vote }
  return cast.setComment id { current with
    totalVoteWeight := (current.totalVoteWeight + maxVoteWeight) % 2 ^ 64 }

/-- The branch of `vote_evaluator` for a changed vote. -/
def recastVote (db : Database) (id : Nat) (previous : CommentVote) (o : VoteOperation)
    (used absRshares : Int) : Except String Database := do
  Outcome.ensure (previous.numChanges < blurtMaxVoteChanges)
    "Voter has used the maximum number of vote changes on this comment."
  Outcome.ensure (previous.votePercent ≠ o.weight)
    "Your current vote on this comment is identical to this vote."
  let rshares := if o.weight < 0 then -absRshares else absRshares
  let comment ← db.getCommentById id
  let voted ← Comment.changeVote rshares absRshares previous.rshares comment
  let recorded ← (db.setComment id voted).recordVote o.voter used absRshares comment.rootComment
  let current ← recorded.getCommentById id
  let recast := recorded.setComment id { current with
    totalVoteWeight := (current.totalVoteWeight + (2 ^ 64 - previous.weight)) % 2 ^ 64 }
  let vote := { previous with
    rshares
    votePercent := o.weight
    lastUpdate := db.dgp.time
    weight := 0
    numChanges := previous.numChanges + 1 }
  return { recast with commentVotes := recast.commentVotes.set (id, o.voter) vote }

/-- The branch of `vote_evaluator` for a comment that has been paid. A node that is built with
`CLEAR_VOTES` keeps no such votes. -/
def voteAfterPayout (clearVotes : Bool) (db : Database) (id : Nat) (o : VoteOperation) : Database :=
  if clearVotes then db
  else
    let previous := (db.commentVotes.find? (id, o.voter)).getD {}
    let vote := { previous with votePercent := o.weight, lastUpdate := db.dgp.time }
    { db with commentVotes := db.commentVotes.set (id, o.voter) vote }

/-- `vote_evaluator::do_apply` -/
def vote (clearVotes : Bool) (db : Database) (o : VoteOperation) : Except String Database := do
  let (id, comment) ← db.getComment o.author o.permlink
  let voter ← db.getAccount o.voter
  Outcome.ensure voter.canVote "Voter has declined their voting rights."
  Outcome.ensure (0 ≤ o.weight) "Downvote is not allowed"
  Outcome.ensure (0 < o.weight → comment.allowVotes) "Votes are not allowed on the comment."
  if comment.cashoutTime = maximumTime then
    return voteAfterPayout clearVotes db id o
  else
    Outcome.ensure (db.dgp.time < comment.cashoutTime)
      "Comment is actively being rewarded. Cannot vote on comment."
    let previous := db.commentVotes.find? (id, o.voter)
    Outcome.ensure (previous.all fun cv => cv.numChanges ≠ -1)
      "Cannot vote again on a comment after payout."
    Outcome.ensure (blurtMinVoteIntervalSec ≤ (db.dgp.time : Int) - voter.lastVoteTime)
      "Can only vote once every 3 seconds."
    let charged ← db.modifyAccount o.voter fun a => updateManabar db.dgp a 0
    let filled ← charged.getAccount o.voter
    Outcome.ensure (0 ≤ filled.votingManabar.currentMana)
      "Account does not have enough mana to vote."
    let used ← usedMana db.dgp filled.votingManabar.currentMana o.weight
    let absRshares ← charged.voteRshares comment used
    match previous with
    | none => charged.castVote id o used absRshares
    | some cv => charged.recastVote id cv o used absRshares

end Database

end Ledger

end Blurt
