import Blurt.Ledger.Frame

/-! # Operations within a frame

The operations that do not create or govern accounts, and do not vote for comments, post or
delete them.
-/

namespace Blurt

namespace Ledger

open Outcome

namespace Database

variable {R : Database → Database → Prop} (hR : Frame R) {db : Database}

include hR

/-! ## Transfers -/

theorem transfer_framed (o : TransferOperation) : Always (db.transfer o) (R db) := by
  refine .ensure fun _ => (adjustBalance_framed hR _ _).bind fun debited h => ?_
  exact (adjustBalance_framed hR _ _).mono fun _ => hR.trans h

theorem transferToSavings_framed (op : TransferToSavingsOperation) :
    Always (db.transferToSavings op) (R db) := by
  refine .skip fun _ => .skip fun _ => .ensure fun _ => ?_
  refine (adjustBalance_framed hR _ _).bind fun debited h => ?_
  exact (adjustSavingsBalance_framed hR _ _).mono fun _ => hR.trans h

theorem transferFromSavings_framed (op : TransferFromSavingsOperation) :
    Always (db.transferFromSavings op) (R db) := by
  refine .skip fun _ => .skip fun _ => .ensure fun _ => .ensure fun _ => .skip fun _ => ?_
  refine .ensure fun _ => (adjustSavingsBalance_framed hR _ _).bind fun debited h => ?_
  refine .ensure fun _ => (modifyAccount_framed hR ?_).mono fun _ hcounted => ?_
  · exact fun _ => .ok ⟨rfl, id⟩
  · exact hR.trans h (hR.after hcounted rfl)

theorem cancelTransferFromSavings_framed (op : CancelTransferFromSavingsOperation) :
    Always (db.cancelTransferFromSavings op) (R db) := by
  refine .skip fun _ => (adjustSavingsBalance_framed hR _ _).bind fun credited h => ?_
  refine (modifyAccount_framed hR ?_).mono fun _ hcounted => ?_
  · exact fun _ => .ok ⟨rfl, id⟩
  · exact hR.trans h (hR.after hcounted rfl)

section Escrows

variable (hset : ∀ {db : Database} {key e}, R db { db with escrows := db.escrows.set key e })

include hset

theorem escrowTransfer_framed (o : EscrowTransferOperation) :
    Always (db.escrowTransfer o) (R db) := by
  refine .skip fun _ => .skip fun _ => .skip fun _ => .ensure fun _ => .ensure fun _ => ?_
  refine .ensure fun _ => .skip fun _ => (adjustBalance_framed hR _ _).bind fun debited h => ?_
  exact .ensure fun _ => .pure (hR.trans (hR.trans h hset) (hR.beside rfl))

theorem escrowApprove_framed (o : EscrowApproveOperation) :
    Always (db.escrowApprove o) (R db) := by
  refine .skip fun _ => .ensure fun _ => .ensure fun _ => .ensure fun _ => .skip fun _ => ?_
  split
  · refine (adjustBalance_framed hR _ _).bind fun refunded hrefunded => ?_
    refine (adjustBalance_framed hR _ _).bind fun returned hreturned => .pure ?_
    exact hR.trans (hR.trans hrefunded hreturned) hR.escrow
  · split
    · refine (adjustBalance_framed hR _ _).bind fun paid h => .pure ?_
      exact hR.trans h hset
    · exact .pure hset

omit hR in
theorem escrowDispute_framed (o : EscrowDisputeOperation) :
    Always (db.escrowDispute o) (R db) := by
  refine .skip fun _ => .skip fun _ => .ensure fun _ => .ensure fun _ => .ensure fun _ => ?_
  exact .ensure fun _ => .ensure fun _ => .pure hset

theorem escrowRelease_framed (o : EscrowReleaseOperation) :
    Always (db.escrowRelease o) (R db) := by
  refine .skip fun _ => .skip fun _ => .ensure fun _ => .ensure fun _ => .ensure fun _ => ?_
  refine .ensure fun _ => .ensure fun _ => .ensure fun _ => .skip fun _ => ?_
  refine (adjustBalance_framed hR _ _).bind fun paid h => .skip fun _ => ?_
  split
  · exact .pure (hR.trans h hR.escrow)
  · exact .pure (hR.trans h hset)

end Escrows

/-! ## Vesting shares -/

theorem transferToVesting_framed (o : TransferToVestingOperation) :
    Always (db.transferToVesting o) (R db) := by
  refine .skip fun _ => .skip fun _ => .ensure fun _ => ?_
  refine (adjustBalance_framed hR _ _).bind fun debited hdebited => ?_
  exact (createVesting_framed hR _ _).bind fun result h => .pure (hR.trans hdebited h)

theorem withdrawVesting_framed (o : WithdrawVestingOperation) :
    Always (db.withdrawVesting o) (R db) := by
  refine .skip fun _ => .ensure fun _ => .ensure fun _ => .ensure fun _ => .ensure fun _ => ?_
  split
  · exact .ensure fun _ => modifyAccount_framed hR fun _ => .ok ⟨rfl, id⟩
  · exact .ensure fun _ => modifyAccount_framed hR fun _ => .ok ⟨rfl, id⟩

theorem setWithdrawVestingRoute_framed (o : SetWithdrawVestingRouteOperation) :
    Always (db.setWithdrawVestingRoute o) (R db) := by
  refine .skip fun _ => .skip fun _ => .ensure fun _ => ?_
  dsimp only
  split
  · refine .ensure fun _ => .ensure fun _ => ?_
    refine (modifyAccount_framed hR ?_).bind fun routed h => .ensure fun _ => .pure (hR.after h rfl)
    exact fun _ => .ok ⟨rfl, id⟩
  · split
    · refine (modifyAccount_framed hR ?_).bind fun routed h => .ensure fun _ => .pure (hR.after h rfl)
      exact fun _ => .ok ⟨rfl, id⟩
    · exact .ensure fun _ => .pure (hR.beside rfl)

theorem claimRewardBalance_framed (op : ClaimRewardBalanceOperation) :
    Always (db.claimRewardBalance op) (R db) := by
  refine .skip fun _ => .ensure fun _ => .ensure fun _ => .ensure fun _ => .ensure fun _ => ?_
  refine .skip fun _ => (adjustRewardBalance_framed hR _ _ _).bind fun debited hdebited => ?_
  refine (adjustBalance_framed hR _ _).bind fun credited hcredited => ?_
  refine (modifyAccount_framed hR fun a => ?_).bind fun claimed hclaimed => ?_
  · refine (updateManabar_keep _ a _).bind fun charged h => ?_
    exact .skip fun _ => .skip fun _ => .skip fun _ => .pure ⟨h.1, h.2⟩
  · refine .skip fun _ => .skip fun _ => .skip fun _ => .skip fun _ => ?_
    refine (adjustProxiedWitnessVotes_framed hR _ _).mono fun _ hvoted => ?_
    exact hR.trans (hR.trans (hR.trans hdebited hcredited) hclaimed) (hR.after hvoted rfl)

theorem delegateVestingShares_framed (op : DelegateVestingSharesOperation) :
    Always (db.delegateVestingShares op) (R db) := by
  refine .skip fun _ => .skip fun _ => ?_
  refine (modifyAccount_framed hR fun a => updateManabar_keep _ a _).bind fun charged hcharged => ?_
  refine .skip fun _ => .ensure fun _ => .skip fun _ => .skip fun _ => .skip fun _ => ?_
  have hlend : ∀ (name : AccountName) (amount : Int) (d : Database),
      Always (d.modifyAccount name fun a => do
        let delegatedVestingShares ← shareType (a.delegatedVestingShares + amount)
        return { a with
          delegatedVestingShares, votingManabar := a.votingManabar.useMana amount }) (R d) := by
    intro name amount d
    exact modifyAccount_framed hR fun a => .skip fun _ => .pure ⟨rfl, fun _ => Manabar.useMana_nonneg _ _⟩
  have hreceive : ∀ (name : AccountName) (amount : Int) (d : Database),
      Always (d.modifyAccount name fun a => do
        let filled ← updateManabar db.dgp a amount
        let receivedVestingShares ← shareType (filled.receivedVestingShares + amount)
        return { filled with receivedVestingShares }) (R d) := by
    intro name amount d
    refine modifyAccount_framed hR fun a => ?_
    exact (updateManabar_keep _ a _).bind fun filled h => .skip fun _ => .pure ⟨h.1, h.2⟩
  split
  · refine .ensure fun _ => .ensure fun _ => (hlend _ _ _).bind fun lent hlent => ?_
    refine (hreceive _ _ _).mono fun _ hreceived => ?_
    exact hR.trans hcharged (hR.after (hR.trans hlent hreceived) rfl)
  · split
    · refine .ensure fun _ => .ensure fun _ => (hlend _ _ _).bind fun lent hlent => ?_
      refine (hreceive _ _ _).bind fun received hreceived => .pure ?_
      exact hR.trans (hR.trans (hR.trans hcharged hlent) hreceived) (hR.beside rfl)
    · have hreturn : ∀ (delta : Int) (d : Database), Always (d.modifyAccount op.delegatee fun a => do
          let charged ← updateManabar db.dgp a 0
          let receivedVestingShares ← shareType (charged.receivedVestingShares - delta)
          return Account.losesMana { charged with receivedVestingShares } delta) (R d) := by
        intro delta d
        refine modifyAccount_framed hR fun a => ?_
        refine (updateManabar_keep _ a _).bind fun _ h => .skip fun _ => .pure ?_
        exact ⟨h.1, fun _ => Manabar.useMana_nonneg _ _⟩
      dsimp only
      split
      · refine .ensure fun _ => .ensure fun _ => (hreturn _ _).bind fun returned h => .pure ?_
        exact hR.trans (hR.trans hcharged (hR.after h rfl)) (hR.beside rfl)
      · refine .ensure fun _ => (hreturn _ _).bind fun returned h => .pure ?_
        exact hR.trans (hR.trans hcharged (hR.after h rfl)) (hR.beside rfl)

/-! ## Accounts -/

theorem spendWitnessSubsidy_framed : Always db.spendWitnessSubsidy (R db) := by
  intro db' h
  simp only [spendWitnessSubsidy, getWitness, bind_eq_ok, require_eq_ok, ensure_eq_ok,
    pure_eq_ok] at h
  obtain ⟨witness, hwitness, _, -, _, hsubsidies, rfl⟩ := h
  refine hR.witness hwitness rfl rfl fun hready => ⟨hready.1, ?_⟩
  obtain ⟨-, -, hlt⟩ := hready
  dsimp only
  rw [blurtAccountSubsidyPrecision] at hsubsidies ⊢
  omega

theorem claimAccount_framed (host : Host) (o : ClaimAccountOperation) :
    Always (claimAccount host db o) (R db) := by
  refine .ensure fun _ => .skip fun creator => .ensure fun _ => .ensure fun _ => ?_
  have hrest : ∀ paid, R db paid → Always (do
      let burned ← paid.adjustBalance blurtNullAccount o.fee
      burned.modifyAccount o.creator fun a => do
        let balance ← shareType (a.balance - o.fee.amount)
        let pendingClaimedAccounts ← shareType (a.pendingClaimedAccounts + 1)
        return { a with balance, pendingClaimedAccounts }) (R db) := by
    intro paid hpaid
    refine (adjustBalance_framed hR _ _).bind fun burned hburned => ?_
    refine (modifyAccount_framed hR fun a => ?_).mono fun _ h => hR.trans (hR.trans hpaid hburned) h
    exact .skip fun _ => .skip fun _ => .pure ⟨rfl, id⟩
  dsimp only
  split
  · split
    · refine .ensure fun _ => ?_
      exact hrest _ (hR.beside rfl)
    · refine (spendWitnessSubsidy_framed hR).bind fun subsidized hsubsidized => .ensure fun _ => ?_
      exact hrest _ (hR.trans hsubsidized (hR.beside rfl))
  · exact .ensure fun _ => hrest _ (hR.refl _)

/-! ## Witnesses and proposals -/

theorem payFee_framed (payer : AccountName) (fee : Int) : Always (db.payFee payer fee) (R db) := by
  refine .skip fun _ => .ensure fun _ => (adjustBalance_framed hR _ _).bind fun debited h => ?_
  exact (adjustBalance_framed hR _ _).mono fun _ => hR.trans h

theorem accountWitnessVote_framed (o : AccountWitnessVoteOperation) :
    Always (db.accountWitnessVote o) (R db) := by
  refine .skip fun _ => .ensure fun _ => .ensure fun _ => .skip fun _ => .skip fun _ => ?_
  dsimp only
  split
  · refine .ensure fun _ => .ensure fun _ => (adjustWitnessVote_framed hR _ _).bind fun voted h => ?_
    refine (modifyAccount_framed hR ?_).mono fun _ hcounted => hR.after (hR.trans h hcounted) rfl
    exact fun _ => .ok ⟨rfl, id⟩
  · refine .ensure fun _ => (adjustWitnessVote_framed hR _ _).bind fun unvoted h => ?_
    refine (modifyAccount_framed hR ?_).bind fun counted hcounted => .pure ?_
    · exact fun _ => .ok ⟨rfl, id⟩
    · exact hR.trans (hR.trans h hcounted) (hR.beside rfl)

theorem accountWitnessProxy_framed (o : AccountWitnessProxyOperation) :
    Always (db.accountWitnessProxy o) (R db) := by
  refine .skip fun _ => .ensure fun _ => .ensure fun _ => ?_
  refine (adjustProxiedWitnessVotesArray_framed hR _ _).bind fun withdrawn hwithdrawn => ?_
  split
  · refine .skip fun _ => .skip fun _ => (clearWitnessVotes_framed hR _).bind fun cleared hcleared => ?_
    refine (modifyAccount_framed hR ?_).bind fun proxied hproxied => ?_
    · exact fun _ => .ok ⟨rfl, id⟩
    · refine (adjustProxiedWitnessVotesArray_framed hR _ _).mono fun _ h => ?_
      exact hR.trans (hR.trans (hR.trans hwithdrawn hcleared) hproxied) h
  · refine (modifyAccount_framed hR ?_).mono fun _ h => hR.trans hwithdrawn h
    exact fun _ => .ok ⟨rfl, id⟩

theorem declineVotingRights_framed (o : DeclineVotingRightsOperation) :
    Always (db.declineVotingRights o) (R db) := by
  refine .skip fun _ => ?_
  dsimp only
  split
  · exact .ensure fun _ => .pure (hR.beside rfl)
  · exact .ensure fun _ => .pure (hR.beside rfl)

theorem createProposal_framed (o : CreateProposalOperation) :
    Always (db.createProposal o) (R db) := by
  refine .ensure fun _ => .skip fun _ => .skip fun _ => .ensure fun _ => .ensure fun _ => ?_
  refine (adjustBalance_framed hR _ _).bind fun debited hdebited => ?_
  exact (adjustBalance_framed hR _ _).mono fun _ h => hR.after (hR.trans hdebited h) rfl

theorem updateProposalVotes_framed (o : UpdateProposalVotesOperation) :
    R db (db.updateProposalVotes o) := by
  unfold updateProposalVotes
  induction o.proposalIds generalizing db with
  | nil => exact hR.refl _
  | cons id rest ih =>
      refine hR.trans ?_ ih
      unfold updateProposalVote
      split
      · exact hR.refl _
      · split
        · exact hR.refl _
        · split <;> exact hR.beside rfl

theorem removeVotes_framed (id : Nat) (voters : List AccountName) (state : Database × Reducer) :
    R state.1 (removeVotes id voters state).1 := by
  induction voters generalizing state with
  | nil => exact hR.refl _
  | cons voter rest ih =>
      rw [removeVotes]
      split
      · exact hR.refl _
      · exact hR.after (ih _) rfl

theorem removeProposalObject_framed (id : Nat) (state : Database × Reducer) :
    R state.1 (removeProposalObject id state).1 := by
  have hvotes := removeVotes_framed hR id (state.1.proposalVoters id) state
  unfold removeProposalObject
  dsimp only
  split
  · exact hvotes
  · split
    · exact hvotes
    · exact hR.trans hvotes (hR.beside rfl)

theorem removeProposals_framed (owner : AccountName) (ids : List Int) (state : Database × Reducer) :
    Always (removeProposals owner ids state) fun final => R state.1 final.1 := by
  induction ids generalizing state with
  | nil => exact .ok (hR.refl _)
  | cons id rest ih =>
      have hremoved := removeProposalObject_framed hR id.toNat state
      rw [removeProposals]
      split
      · exact ih state
      · refine .ensure fun _ => ?_
        dsimp only
        split
        · exact .pure hremoved
        · exact (ih _).mono fun _ => hR.trans hremoved

theorem markRemoved_framed (ids : List Int) : R db (ids.foldl markRemoved db) := by
  induction ids generalizing db with
  | nil => exact hR.refl _
  | cons id rest ih =>
      refine hR.trans ?_ ih
      unfold markRemoved
      split
      · exact hR.refl _
      · split
        · exact hR.refl _
        · exact hR.beside rfl

theorem removeProposal_framed (host : Host) (o : RemoveProposalOperation) :
    Always (removeProposal host db o) (R db) := by
  refine (removeProposals_framed hR _ _ _).bind fun removed hremoved => .pure ?_
  exact hR.trans hremoved (markRemoved_framed hR _)

/-! ## Comments and votes on comments -/

omit hR in
theorem getCommentById_found (id : Nat) :
    Always (db.getCommentById id) fun c => db.comments.find? id = some c := by
  intro c h
  simpa [getCommentById] using h

theorem editComment_framed (parent : Option (Nat × Comment)) {id : Nat} {c : Comment}
    (hc : db.comments.find? id = some c) (o : CommentOperation) :
    Always (db.editComment parent id c o) (R db) := by
  refine .skip fun _ => .ensure fun _ => .ensure fun _ => .ensure fun _ => ?_
  refine (modifyAccount_framed hR ?_).mono fun _ h => hR.trans ?_ h
  · exact fun _ => .ok ⟨rfl, fun h => h⟩
  · exact hR.comment hc rfl rfl

theorem applyOptionsExtension_framed (id : Nat) (extension : CommentOptionsExtension) :
    Always (applyOptionsExtension id db extension) (R db) := by
  refine (getCommentById_found id).bind fun c hc => ?_
  split
  · exact .ensure fun _ => .ensure fun _ => .ensure fun _ => .pure (hR.comment hc rfl rfl)
  · exact .ensure fun _ => .pure (hR.comment hc rfl rfl)

omit hR in
theorem getComment_found (author : AccountName) (permlink : Text) :
    Always (db.getComment author permlink) fun row => db.comments.find? row.1 = some row.2 := by
  intro row h
  rw [getComment, require_eq_ok, findComment] at h
  exact Store.mem_rows_iff.mp (List.mem_of_find?_eq_some h)

theorem commentOptions_framed (o : CommentOptionsOperation) :
    Always (db.commentOptions o) (R db) := by
  refine (getComment_found _ _).bind fun row hrow => ?_
  refine .ensure fun _ => .ensure fun _ => .ensure fun _ => .ensure fun _ => .ensure fun _ => ?_
  refine .forEach (hR.comment hrow rfl rfl) fun _ extension _ h => ?_
  exact (applyOptionsExtension_framed hR _ extension).mono fun _ => hR.trans h

end Database

end Ledger

end Blurt
