import Blurt.Ledger.BlockInvariants
import Blurt.Ledger.Percents

/-! # Operations and the percentages that users set

The percentages that are stored come from operations, which are validated before they are
applied.
-/

namespace Blurt

namespace Ledger

open Outcome

namespace Database

variable {db : Database}

/-! ## Transfers -/

theorem transfer_percents (o : TransferOperation) :
    Always (db.transfer o) (KeepsPercents db) :=
  .ensure fun _ => .chain (adjustBalance_percents _ _) fun _ => adjustBalance_percents _ _

theorem transferToSavings_percents (op : TransferToSavingsOperation) :
    Always (db.transferToSavings op) (KeepsPercents db) :=
  .skip fun _ => .skip fun _ => .ensure fun _ =>
    .chain (adjustBalance_percents _ _) fun _ => adjustSavingsBalance_percents _ _

theorem transferFromSavings_percents (op : TransferFromSavingsOperation) :
    Always (db.transferFromSavings op) (KeepsPercents db) := by
  refine .skip fun _ => .skip fun _ => .ensure fun _ => .ensure fun _ => .skip fun _ => ?_
  refine .ensure fun _ => .chain (adjustSavingsBalance_percents _ _) fun debited => ?_
  exact .ensure fun _ => (modifyAccount_percents _ _).mono fun _ h => h.after rfl rfl

theorem cancelTransferFromSavings_percents (op : CancelTransferFromSavingsOperation) :
    Always (db.cancelTransferFromSavings op) (KeepsPercents db) := by
  refine .skip fun _ => .chain (adjustSavingsBalance_percents _ _) fun credited => ?_
  exact (modifyAccount_percents _ _).mono fun _ h => h.after rfl rfl

theorem escrowTransfer_percents (o : EscrowTransferOperation) :
    Always (db.escrowTransfer o) (KeepsPercents db) := by
  refine .skip fun _ => .skip fun _ => .skip fun _ => .ensure fun _ => .ensure fun _ => ?_
  refine .ensure fun _ => .skip fun _ => .chain (adjustBalance_percents _ _) fun debited => ?_
  exact .ensure fun _ => .pure (.beside rfl rfl)

theorem escrowApprove_percents (o : EscrowApproveOperation) :
    Always (db.escrowApprove o) (KeepsPercents db) := by
  refine .skip fun _ => .ensure fun _ => .ensure fun _ => .ensure fun _ => .skip fun _ => ?_
  split
  · refine .chain (adjustBalance_percents _ _) fun refunded => ?_
    exact .chain (adjustBalance_percents _ _) fun returned => .pure (.beside rfl rfl)
  · split
    · exact .chain (adjustBalance_percents _ _) fun paid => .pure (.beside rfl rfl)
    · exact .pure (.beside rfl rfl)

theorem escrowDispute_percents (o : EscrowDisputeOperation) :
    Always (db.escrowDispute o) (KeepsPercents db) := by
  refine .skip fun _ => .skip fun _ => .ensure fun _ => .ensure fun _ => .ensure fun _ => ?_
  exact .ensure fun _ => .ensure fun _ => .pure (.beside rfl rfl)

theorem escrowRelease_percents (o : EscrowReleaseOperation) :
    Always (db.escrowRelease o) (KeepsPercents db) := by
  refine .skip fun _ => .skip fun _ => .ensure fun _ => .ensure fun _ => .ensure fun _ => ?_
  refine .ensure fun _ => .ensure fun _ => .ensure fun _ => .skip fun _ => ?_
  refine .chain (adjustBalance_percents _ _) fun paid => .skip fun _ => ?_
  split
  · exact .pure (.beside rfl rfl)
  · exact .pure (.beside rfl rfl)

/-! ## Vesting shares -/

theorem transferToVesting_percents (o : TransferToVestingOperation) :
    Always (db.transferToVesting o) (KeepsPercents db) := by
  refine .skip fun _ => .skip fun _ => .ensure fun _ => ?_
  refine .chain (adjustBalance_percents _ _) fun debited => ?_
  exact (createVesting_percents _ _).bind fun result h => .pure h

theorem withdrawVesting_percents (o : WithdrawVestingOperation) :
    Always (db.withdrawVesting o) (KeepsPercents db) := by
  refine .skip fun _ => .ensure fun _ => .ensure fun _ => .ensure fun _ => .ensure fun _ => ?_
  split
  · exact .ensure fun _ => modifyAccount_percents _ _
  · exact .ensure fun _ => modifyAccount_percents _ _

theorem setWithdrawVestingRoute_percents {o : SetWithdrawVestingRouteOperation}
    (hpercent : o.percent ≤ blurt100Percent) :
    Always (db.setWithdrawVestingRoute o) (KeepsPercents db) := by
  refine .skip fun _ => .skip fun _ => .ensure fun _ => ?_
  dsimp only
  split
  · refine .ensure fun _ => .ensure fun _ => (modifyAccount_percents _ _).bind fun routed h => ?_
    refine .ensure fun _ => .pure (KeepsPercents.trans ?_ h)
    exact .route hpercent rfl rfl
  · split
    · refine (modifyAccount_percents _ _).bind fun routed h => ?_
      refine .ensure fun _ => .pure (KeepsPercents.trans ?_ h)
      exact .fewerRoutes _ rfl rfl
    · exact .ensure fun _ => .pure (.route hpercent rfl rfl)

theorem claimRewardBalance_percents (op : ClaimRewardBalanceOperation) :
    Always (db.claimRewardBalance op) (KeepsPercents db) := by
  refine .skip fun _ => .ensure fun _ => .ensure fun _ => .ensure fun _ => .ensure fun _ => ?_
  refine .skip fun _ => .chain (adjustRewardBalance_percents _ _ _) fun debited => ?_
  refine .chain (adjustBalance_percents _ _) fun credited => ?_
  refine .chain (modifyAccount_percents _ _) fun claimed => ?_
  refine .skip fun _ => .skip fun _ => .skip fun _ => .skip fun _ => ?_
  exact (adjustProxiedShare_percents _ _ _).mono fun _ h => h.after rfl rfl

theorem delegateVestingShares_percents (op : DelegateVestingSharesOperation) :
    Always (db.delegateVestingShares op) (KeepsPercents db) := by
  refine .skip fun _ => .skip fun _ => .chain (modifyAccount_percents _ _) fun charged => ?_
  refine .skip fun _ => .ensure fun _ => .skip fun _ => .skip fun _ => .skip fun _ => ?_
  split
  · refine .ensure fun _ => .ensure fun _ => (modifyAccount_percents _ _).bind fun lent hlent => ?_
    exact (modifyAccount_percents _ _).mono fun _ h => (hlent.trans h).after rfl rfl
  · split
    · refine .ensure fun _ => .ensure fun _ => .chain (modifyAccount_percents _ _) fun lent => ?_
      exact .chain (modifyAccount_percents _ _) fun received => .pure (.beside rfl rfl)
    · dsimp only
      split
      · refine .ensure fun _ => .ensure fun _ => (modifyAccount_percents _ _).bind fun returned h => ?_
        have hreturned : KeepsPercents charged returned := h.after rfl rfl
        exact .pure (hreturned.trans (.beside rfl rfl))
      · refine .ensure fun _ => (modifyAccount_percents _ _).bind fun returned h => ?_
        have hreturned : KeepsPercents charged returned := h.after rfl rfl
        exact .pure (hreturned.trans (.beside rfl rfl))

/-! ## Accounts -/

theorem createAccount_percents (creator name : AccountName) (memoKey : PublicKey)
    (owner active posting : Authority) :
    Always (db.createAccount creator name memoKey owner active posting) (KeepsPercents db) :=
  .ensure fun _ => .pure (.beside rfl rfl)

theorem accountCreate_percents (o : AccountCreateOperation) :
    Always (db.accountCreate o) (KeepsPercents db) := by
  refine .skip fun _ => .ensure fun _ => .skip fun _ => .skip fun _ => .skip fun _ => ?_
  refine .chain (adjustBalance_percents _ _) fun debited => ?_
  exact .chain (adjustBalance_percents _ _) fun burned => createAccount_percents _ _ _ _ _ _

theorem updateOwnerAuthority_percents (account : AccountName) (owner : Authority) :
    Always (db.updateOwnerAuthority account owner) (KeepsPercents db) :=
  .skip fun _ => .pure (.beside rfl rfl)

theorem accountUpdate_percents (o : AccountUpdateOperation) :
    Always (db.accountUpdate o) (KeepsPercents db) := by
  refine .ensure fun _ => .skip fun _ => .skip fun _ => .skip fun _ => .skip fun _ => ?_
  refine .skip fun _ => .skip fun _ => ?_
  have hrest : ∀ owned, KeepsPercents db owned → Always (do
      forAuthority o.active owned.verifyAuthorityAccountsExist
      forAuthority o.posting owned.verifyAuthorityAccountsExist
      let updated ← owned.modifyAccount o.account fun acc => .ok { acc with
        memoKey := if o.memoKey.all (· = 0) then acc.memoKey else o.memoKey.getD acc.memoKey
        lastAccountUpdate := db.dgp.time }
      let auth ← Outcome.require (updated.authorities.find? o.account) "unknown key"
      return { updated with authorities := updated.authorities.set o.account { auth with
        active := o.active.getD auth.active
        posting := o.posting.getD auth.posting } }) (KeepsPercents db) := by
    intro owned howned
    refine .skip fun _ => .skip fun _ => (modifyAccount_percents _ _).bind fun updated h => ?_
    exact .skip fun auth => .pure ((howned.trans h).trans (.beside rfl rfl))
  dsimp only
  split
  · refine .ensure fun _ => .skip fun _ => ?_
    exact (updateOwnerAuthority_percents _ _).bind fun owned howned => hrest owned howned
  · exact hrest db (.refl db)

theorem spendWitnessSubsidy_percents : Always db.spendWitnessSubsidy (KeepsPercents db) :=
  .skip fun _ => .ensure fun _ => .ensure fun _ => .pure (.beside rfl rfl)

theorem claimAccount_percents (host : Host) (o : ClaimAccountOperation) :
    Always (claimAccount host db o) (KeepsPercents db) := by
  refine .ensure fun _ => .skip fun creator => .ensure fun _ => .ensure fun _ => ?_
  have hrest : ∀ paid, KeepsPercents db paid → Always (do
      let burned ← paid.adjustBalance blurtNullAccount o.fee
      burned.modifyAccount o.creator fun a => do
        let balance ← shareType (a.balance - o.fee.amount)
        let pendingClaimedAccounts ← shareType (a.pendingClaimedAccounts + 1)
        return { a with balance, pendingClaimedAccounts }) (KeepsPercents db) := by
    intro paid hpaid
    refine (adjustBalance_percents _ _).bind fun burned hburned => ?_
    exact (modifyAccount_percents _ _).mono fun _ h => (hpaid.trans hburned).trans h
  dsimp only
  split
  · split
    · refine .ensure fun _ => ?_
      exact hrest _ (.beside rfl rfl)
    · refine spendWitnessSubsidy_percents.bind fun subsidized hsubsidized => .ensure fun _ => ?_
      exact hrest _ (hsubsidized.trans (.beside rfl rfl))
  · exact .ensure fun _ => hrest _ (.refl db)

theorem createClaimedAccount_percents (o : CreateClaimedAccountOperation) :
    Always (db.createClaimedAccount o) (KeepsPercents db) := by
  refine .ensure fun _ => .skip fun _ => .ensure fun _ => .skip fun _ => .skip fun _ => ?_
  refine .skip fun _ => .chain (modifyAccount_percents _ _) fun claimed => ?_
  exact createAccount_percents _ _ _ _ _ _

/-- A change of the requests for recovery. -/
theorem requestAccountRecovery_percents (o : RequestAccountRecoveryOperation) :
    Always (db.requestAccountRecovery o) (KeepsPercents db) := by
  refine .skip fun account => ?_
  dsimp only
  split
  · refine .ensure fun _ => ?_
    split
    · exact .ensure fun _ => .ensure fun _ => .skip fun _ => .skip fun _ => .pure (.beside rfl rfl)
    · split
      · exact .pure (.beside rfl rfl)
      · exact .ensure fun _ => .skip fun _ => .pure (.beside rfl rfl)
  · refine .ensure fun _ => ?_
    split
    · exact .ensure fun _ => .ensure fun _ => .skip fun _ => .skip fun _ => .pure (.beside rfl rfl)
    · split
      · exact .pure (.beside rfl rfl)
      · exact .ensure fun _ => .skip fun _ => .pure (.beside rfl rfl)

theorem recoverAccount_percents (o : RecoverAccountOperation) :
    Always (db.recoverAccount o) (KeepsPercents db) := by
  refine .skip fun _ => .ensure fun _ => .skip fun _ => .ensure fun _ => .ensure fun _ => ?_
  refine (updateOwnerAuthority_percents _ _).bind fun owned h => ?_
  have howned : KeepsPercents db owned := h.after rfl rfl
  exact (modifyAccount_percents _ _).mono fun _ => howned.trans

theorem changeRecoveryAccount_percents (o : ChangeRecoveryAccountOperation) :
    Always (db.changeRecoveryAccount o) (KeepsPercents db) := by
  refine .skip fun _ => .skip fun _ => ?_
  dsimp only
  split
  · exact .pure (.beside rfl rfl)
  · exact .pure (.beside rfl rfl)

/-! ## Witnesses and proposals -/

theorem payFee_percents (payer : AccountName) (fee : Int) :
    Always (db.payFee payer fee) (KeepsPercents db) :=
  .skip fun _ => .ensure fun _ => .chain (adjustBalance_percents _ _) fun _ =>
    adjustBalance_percents _ _

theorem witnessUpdate_percents (o : WitnessUpdateOperation) :
    Always (db.witnessUpdate o) (KeepsPercents db) :=
  .skip fun _ => .ensure fun _ => .ensure fun _ => .ensure fun _ => .pure (.beside rfl rfl)

theorem witnessSetProperties_percents (host : Host) (o : WitnessSetPropertiesOperation) :
    Always (witnessSetProperties host db o) (KeepsPercents db) := by
  refine .skip fun _ => .skip fun _ => .skip fun _ => .skip fun _ => .skip fun _ => ?_
  dsimp only
  split
  · exact .skip fun _ => (payFee_percents _ _).mono fun _ h => h.after rfl rfl
  · exact .ok (.beside rfl rfl)

theorem accountWitnessVote_percents (o : AccountWitnessVoteOperation) :
    Always (db.accountWitnessVote o) (KeepsPercents db) := by
  refine .skip fun _ => .ensure fun _ => .ensure fun _ => .skip fun _ => .skip fun _ => ?_
  dsimp only
  split
  · refine .ensure fun _ => .ensure fun _ => (adjustWitnessVote_percents _ _).bind fun voted h => ?_
    exact (modifyAccount_percents _ _).mono fun _ hcounted => (h.trans hcounted).after rfl rfl
  · refine .ensure fun _ => .chain (adjustWitnessVote_percents _ _) fun unvoted => ?_
    exact .chain (modifyAccount_percents _ _) fun counted => .pure (.beside rfl rfl)

theorem accountWitnessProxy_percents (o : AccountWitnessProxyOperation) :
    Always (db.accountWitnessProxy o) (KeepsPercents db) := by
  refine .skip fun _ => .ensure fun _ => .ensure fun _ => ?_
  refine .chain (adjustProxiedArray_percents _ _ _) fun withdrawn => ?_
  split
  · refine .skip fun _ => .skip fun _ => .chain (clearWitnessVotes_percents _) fun cleared => ?_
    exact .chain (modifyAccount_percents _ _) fun proxied => adjustProxiedArray_percents _ _ _
  · exact modifyAccount_percents _ _

theorem declineVotingRights_percents (o : DeclineVotingRightsOperation) :
    Always (db.declineVotingRights o) (KeepsPercents db) := by
  refine .skip fun _ => ?_
  dsimp only
  split
  · exact .ensure fun _ => .pure (.beside rfl rfl)
  · exact .ensure fun _ => .pure (.beside rfl rfl)

theorem createProposal_percents (o : CreateProposalOperation) :
    Always (db.createProposal o) (KeepsPercents db) := by
  refine .ensure fun _ => .skip fun _ => .skip fun _ => .ensure fun _ => .ensure fun _ => ?_
  refine (adjustBalance_percents _ _).bind fun debited hdebited => ?_
  exact (adjustBalance_percents _ _).mono fun _ h => (hdebited.trans h).after rfl rfl

theorem updateProposalVotes_percents (o : UpdateProposalVotesOperation) :
    KeepsPercents db (db.updateProposalVotes o) := by
  unfold updateProposalVotes
  induction o.proposalIds generalizing db with
  | nil => exact .refl db
  | cons id rest ih =>
      refine KeepsPercents.trans ?_ ih
      unfold updateProposalVote
      split
      · exact .refl db
      · split
        · exact .refl db
        · split <;> exact .beside rfl rfl

theorem removeVotes_percents (id : Nat) (voters : List AccountName) (state : Database × Reducer) :
    KeepsPercents state.1 (removeVotes id voters state).1 := by
  induction voters generalizing state with
  | nil => exact .refl _
  | cons voter rest ih =>
      rw [removeVotes]
      split
      · exact .refl _
      · exact (ih _).after rfl rfl

theorem removeProposalObject_percents (id : Nat) (state : Database × Reducer) :
    KeepsPercents state.1 (removeProposalObject id state).1 := by
  have hvotes := removeVotes_percents id (state.1.proposalVoters id) state
  unfold removeProposalObject
  dsimp only
  split
  · exact hvotes
  · split
    · exact hvotes
    · exact hvotes.trans (.beside rfl rfl)

theorem removeProposals_percents (owner : AccountName) (ids : List Int)
    (state : Database × Reducer) :
    Always (removeProposals owner ids state) fun final => KeepsPercents state.1 final.1 := by
  induction ids generalizing state with
  | nil => exact .ok (.refl _)
  | cons id rest ih =>
      have hremoved := removeProposalObject_percents id.toNat state
      rw [removeProposals]
      split
      · exact ih state
      · refine .ensure fun _ => ?_
        dsimp only
        split
        · exact .pure hremoved
        · exact (ih _).mono fun _ => hremoved.trans

theorem markRemoved_percents (ids : List Int) : KeepsPercents db (ids.foldl markRemoved db) := by
  induction ids generalizing db with
  | nil => exact .refl db
  | cons id rest ih =>
      refine KeepsPercents.trans ?_ ih
      unfold markRemoved
      split
      · exact .refl db
      · split
        · exact .refl db
        · exact .beside rfl rfl

theorem removeProposal_percents (host : Host) (o : RemoveProposalOperation) :
    Always (removeProposal host db o) (KeepsPercents db) := by
  refine (removeProposals_percents _ _ _).bind fun removed hremoved => .pure ?_
  exact hremoved.trans (markRemoved_percents _)

/-! ## Comments and votes on comments -/

theorem updateAncestors_percents (change : Nat → Nat) (turns id : Nat) :
    Always (db.updateAncestors change id turns) (KeepsPercents db) := by
  induction turns generalizing db id with
  | zero => exact .error _
  | succ turns ih =>
      refine (getCommentById_found id).bind fun parent hparent => ?_
      have hset : KeepsPercents db (db.setComment id { parent with
          children := change parent.children, active := db.dgp.time }) :=
        .comment hparent rfl rfl le_rfl
      dsimp only
      split
      · exact .skip fun next => (ih _).mono fun _ => hset.trans
      · exact .pure hset

theorem newComment_percent_le (id : Nat) (parent : Option Comment) (o : CommentOperation) :
    (db.newComment id parent o).percentBlurt ≤ blurt100Percent := by
  unfold newComment
  dsimp only
  split
  · exact le_rfl
  · exact Nat.zero_le _

theorem createComment_percents (parent : Option (Nat × Comment)) (o : CommentOperation) :
    Always (db.createComment parent o) (KeepsPercents db) := by
  refine .skip fun auth => ?_
  cases parent with
  | none =>
      refine .ensure fun _ => .chain (modifyAccount_percents _ _) fun posted => ?_
      refine .skip fun _ => .skip fun _ => .pure ?_
      exact .newComment (newComment_percent_le _ _ _) rfl rfl
  | some pair =>
      refine .skip fun _ => .ensure fun _ => .ensure fun _ =>
        .chain (modifyAccount_percents _ _) fun posted => .skip fun _ => .skip fun _ => ?_
      refine (updateAncestors_percents _ _ _).mono fun _ h => KeepsPercents.trans ?_ h
      exact .newComment (newComment_percent_le _ _ _) rfl rfl

theorem editComment_percents (parent : Option (Nat × Comment)) {id : Nat} {c : Comment}
    (hc : db.comments.find? id = some c) (o : CommentOperation) :
    Always (db.editComment parent id c o) (KeepsPercents db) := by
  refine .skip fun _ => .ensure fun _ => .ensure fun _ => .ensure fun _ => ?_
  refine (modifyAccount_percents _ _).mono fun _ h => KeepsPercents.trans ?_ h
  exact .comment hc rfl rfl le_rfl

theorem comment_percents (rules : TextRules) (o : CommentOperation) :
    Always (comment rules db o) (KeepsPercents db) := by
  refine .ensure fun _ => .skip fun _ => .skip fun parent => .ensure fun _ => ?_
  split
  · exact createComment_percents parent o
  · rename_i id existing hfind
    exact editComment_percents parent
      (Store.mem_rows_iff.mp (List.mem_of_find?_eq_some hfind)) o

/-- The liquid part of a payout only shrinks. -/
theorem applyOptionsExtension_percents (id : Nat) (extension : CommentOptionsExtension) :
    Always (applyOptionsExtension id db extension) (KeepsPercents db) := by
  refine (getCommentById_found id).bind fun c hc => ?_
  split
  · exact .ensure fun _ => .ensure fun _ => .ensure fun _ => .pure (.comment hc rfl rfl le_rfl)
  · exact .ensure fun hless => .pure (.comment hc rfl rfl (by simpa using hless))

theorem commentOptions_percents (o : CommentOptionsOperation) :
    Always (db.commentOptions o) (KeepsPercents db) := by
  refine (getComment_found _ _).bind fun row hrow => ?_
  refine .ensure fun _ => .ensure fun _ => .ensure fun _ => .ensure fun _ => .ensure fun _ => ?_
  have hset : KeepsPercents db (db.setComment row.1 { row.2 with
      maxAcceptedPayout := o.maxAcceptedPayout
      allowVotes := o.allowVotes
      allowCurationRewards := o.allowCurationRewards }) := .comment hrow rfl rfl le_rfl
  refine .forEach hset fun _ extension _ h => ?_
  exact (applyOptionsExtension_percents _ extension).mono fun _ => h.trans

theorem deleteComment_percents (o : DeleteCommentOperation) :
    Always (db.deleteComment o) (KeepsPercents db) := by
  refine .skip fun row => .ensure fun _ => .ensure fun _ => .ensure fun _ => ?_
  dsimp only
  split
  · refine .skip fun parent => (updateAncestors_percents _ _ _).bind fun orphaned h => .pure ?_
    have horphaned : KeepsPercents db orphaned := h.after rfl rfl
    exact horphaned.trans (.fewerComments row.1 rfl rfl)
  · exact .pure (.fewerComments row.1 rfl rfl)

theorem recordVote_percents (voter : AccountName) (used absRshares : Int) (root : Nat) :
    Always (db.recordVote voter used absRshares root) (KeepsPercents db) := by
  refine .chain (modifyAccount_percents _ _) fun charged => ?_
  refine (getCommentById_found root).bind fun c hc => .skip fun _ => .pure ?_
  exact .comment hc rfl rfl le_rfl

theorem addVote_percent (hardfork4 : Bool) (rshares absRshares : Int) (c : Comment) :
    Always (Comment.addVote hardfork4 rshares absRshares c) fun voted =>
      voted.percentBlurt = c.percentBlurt :=
  .skip fun _ => .skip fun _ => .skip fun _ => .pure rfl

theorem changeVote_percent (rshares absRshares previous : Int) (c : Comment) :
    Always (Comment.changeVote rshares absRshares previous c) fun voted =>
      voted.percentBlurt = c.percentBlurt :=
  .skip fun _ => .skip fun _ => .skip fun _ => .pure rfl

theorem castVote_percents (id : Nat) (o : VoteOperation) (used absRshares : Int) :
    Always (db.castVote id o used absRshares) (KeepsPercents db) := by
  refine .ensure fun _ => (getCommentById_found id).bind fun c hc => ?_
  refine (addVote_percent _ _ _ c).bind fun voted hvoted => ?_
  refine (recordVote_percents _ _ _ _).bind fun recorded hrecorded => ?_
  refine (getCommentById_found id).bind fun current hcurrent => .skip fun weights => .pure ?_
  have hset : KeepsPercents db (db.setComment id voted) := .comment hc rfl rfl hvoted.le
  have hcast := hset.trans hrecorded
  exact hcast.trans (.comment hcurrent rfl rfl le_rfl)

theorem recastVote_percents (id : Nat) (previous : CommentVote) (o : VoteOperation)
    (used absRshares : Int) :
    Always (db.recastVote id previous o used absRshares) (KeepsPercents db) := by
  refine .ensure fun _ => .ensure fun _ => (getCommentById_found id).bind fun c hc => ?_
  refine (changeVote_percent _ _ _ c).bind fun voted hvoted => ?_
  refine (recordVote_percents _ _ _ _).bind fun recorded hrecorded => ?_
  refine (getCommentById_found id).bind fun current hcurrent => .pure ?_
  have hset : KeepsPercents db (db.setComment id voted) := .comment hc rfl rfl hvoted.le
  have hrecast := hset.trans hrecorded
  exact hrecast.trans (.comment hcurrent rfl rfl le_rfl)

theorem vote_percents (clearVotes : Bool) (o : VoteOperation) :
    Always (db.vote clearVotes o) (KeepsPercents db) := by
  refine .skip fun row => .skip fun voter => .ensure fun _ => .ensure fun _ => .ensure fun _ => ?_
  dsimp only
  split
  · refine .pure ?_
    rw [voteAfterPayout]
    split <;> exact .beside rfl rfl
  · refine .ensure fun _ => .ensure fun _ => .ensure fun _ => ?_
    refine .chain (modifyAccount_percents _ _) fun charged => ?_
    refine .skip fun _ => .ensure fun _ => .skip fun _ => .skip fun _ => ?_
    split
    · exact castVote_percents _ _ _ _
    · exact recastVote_percents _ _ _ _ _

/-! ## All operations -/

theorem applyOperation_percents {host : Host} {op : Operation}
    (hvalid : op.validate host.rules = .ok ()) :
    Always (applyOperation host db op) (KeepsPercents db) := by
  cases op with
  | vote o => exact vote_percents host.clearVotes o
  | comment o => exact comment_percents host.rules o
  | transfer o => exact transfer_percents o
  | transferToVesting o => exact transferToVesting_percents o
  | withdrawVesting o => exact withdrawVesting_percents o
  | accountCreate o => exact accountCreate_percents o
  | accountUpdate o => exact accountUpdate_percents o
  | witnessUpdate o => exact witnessUpdate_percents o
  | accountWitnessVote o => exact accountWitnessVote_percents o
  | accountWitnessProxy o => exact accountWitnessProxy_percents o
  | custom o => exact .ensure fun _ => .ensure fun _ => .pure (.refl db)
  | deleteComment o => exact deleteComment_percents o
  | customJson o => exact .ensure fun _ => .ensure fun _ => .pure (.refl db)
  | commentOptions o => exact commentOptions_percents o
  | setWithdrawVestingRoute o =>
      apply setWithdrawVestingRoute_percents
      simp only [Operation.validate, SetWithdrawVestingRouteOperation.validate, bind_eq_ok,
        ensure_eq_ok] at hvalid
      obtain ⟨_, -, _, -, hpercent⟩ := hvalid
      exact hpercent
  | claimAccount o => exact claimAccount_percents host o
  | createClaimedAccount o => exact createClaimedAccount_percents o
  | requestAccountRecovery o => exact requestAccountRecovery_percents o
  | recoverAccount o => exact recoverAccount_percents o
  | changeRecoveryAccount o => exact changeRecoveryAccount_percents o
  | escrowTransfer o => exact escrowTransfer_percents o
  | escrowDispute o => exact escrowDispute_percents o
  | escrowRelease o => exact escrowRelease_percents o
  | escrowApprove o => exact escrowApprove_percents o
  | transferToSavings o => exact transferToSavings_percents o
  | transferFromSavings o => exact transferFromSavings_percents o
  | cancelTransferFromSavings o => exact cancelTransferFromSavings_percents o
  | customBinary o => exact .ensure fun _ => .ensure fun _ => .pure (.refl db)
  | declineVotingRights o => exact declineVotingRights_percents o
  | resetAccount o => exact .error _
  | setResetAccount o => exact .error _
  | claimRewardBalance o => exact claimRewardBalance_percents o
  | delegateVestingShares o => exact delegateVestingShares_percents o
  | witnessSetProperties o => exact witnessSetProperties_percents host o
  | createProposal o => exact createProposal_percents o
  | updateProposalVotes o => exact .ok (updateProposalVotes_percents o)
  | removeProposal o => exact removeProposal_percents host o

theorem processTxFee_percents (trx : SignedTransaction) :
    Always (db.processTxFee trx) (KeepsPercents db) := by
  unfold processTxFee
  split
  · refine .skip fun fee => .forEach (.refl db) fun state auth _ h => ?_
    exact (payFee_percents _ _).mono fun _ => h.trans
  · exact .ok (.refl db)

theorem acceptTransaction_percents (host : Host) (t : BlockTransaction) :
    Always (acceptTransaction host db t) (KeepsPercents db) := by
  intro db' h
  simp only [acceptTransaction, bind_eq_ok] at h
  obtain ⟨⟨⟩, hvalid, ⟨⟩, -, h⟩ := h
  refine KeepsPercents.chain (processTxFee_percents t.trx) (fun paid => ?_) db' h
  refine .forEach (.refl paid) fun state op hop hstate => ?_
  exact (applyOperation_percents (validate_operations hvalid hop)).mono fun _ => hstate.trans

end Database

end Ledger

end Blurt
