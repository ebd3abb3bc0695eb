import Blurt.Ledger.HeaderBooks
import Blurt.Ledger.PercentOperations

/-! # Blocks and the percentages that users set

Neither the header of a block nor its maintenance sets a percentage.
-/

namespace Blurt

namespace Ledger

open Outcome

namespace Database

variable {db : Database}

/-! ## The header, the schedule and hardforks -/

theorem modifyRewardFund_percents (update : RewardFund → RewardFund) :
    Always (db.modifyRewardFund update) (KeepsPercents db) :=
  .skip fun _ => .pure (.beside rfl rfl)

theorem applyHardfork_percents (hardfork : Nat) :
    Always (db.applyHardfork hardfork) (KeepsPercents db) := by
  have hchanges : Always (db.hardforkChanges hardfork) (KeepsPercents db) := by
    unfold hardforkChanges
    split
    · exact modifyRewardFund_percents _
    · exact modifyRewardFund_percents _
    · exact modifyRewardFund_percents _
    · exact .ok (.refl db)
  refine .chain hchanges fun changed => .ensure fun _ => .ensure fun _ => .ensure fun _ => ?_
  exact .pure (.beside rfl rfl)

theorem processHardforks_percents : Always db.processHardforks (KeepsPercents db) := by
  refine .drain (.refl db) fun state hardfork h _ => ?_
  unfold processHardfork
  split
  · exact (applyHardfork_percents hardfork).mono fun _ => h.trans
  · exact .error _

theorem startHardforks_percents (timestamp : Nat) :
    Always (db.startHardforks timestamp) (KeepsPercents db) := by
  have hset : ∀ hardfork, Always (db.setHardfork hardfork) (KeepsPercents db) := by
    refine fun hardfork => .forEach (.refl db) fun state i _ h => ?_
    exact (applyHardfork_percents i).mono fun _ happly => h.trans (happly.after rfl rfl)
  unfold startHardforks
  dsimp only
  split
  · refine (hset _).bind fun started hstarted => .ensure fun _ => .pure ?_
    refine List.foldlRecOn (motive := KeepsPercents db) _ _ hstarted fun state h row _ => ?_
    exact h.trans (modifyWitness_percents _ _)
  · exact .pure (.refl db)

theorem visitExtension_percents (witness : AccountName) (extension : BlockHeaderExtension) :
    Always (visitExtension witness db extension) (KeepsPercents db) := by
  unfold visitExtension
  split
  · exact .skip fun _ => .pure (.beside rfl rfl)
  · refine .skip fun _ => ?_
    split
    · exact .ok (.beside rfl rfl)
    · exact .ok (.refl db)
  · exact .skip fun _ => .skip fun _ => .pure (.beside rfl rfl)

theorem openBlock_percents (b : LedgerBlock) : Always (db.openBlock b) (KeepsPercents db) := by
  refine .branch (startHardforks_percents _) (.ok (.refl db)) fun started hstarted => ?_
  refine .ensure fun _ => .skip fun _ => .ensure fun _ => ?_
  have hsigned : KeepsPercents db
      { started with dgp := { started.dgp with currentWitness := b.witness } } :=
    hstarted.trans (.beside rfl rfl)
  have hextended := Always.forEach hsigned fun state extension (_ : extension ∈ b.extensions) h =>
    (visitExtension_percents b.witness extension).mono fun _ => h.trans
  exact hextended.bind fun extended h => .skip fun _ => .ensure fun _ => .pure h

theorem markSchedule_percents (schedule : WitnessScheduleType)
    (rows : List (AccountName × Witness)) : KeepsPercents db (db.markSchedule schedule rows) := by
  unfold markSchedule
  refine List.foldlRecOn (motive := KeepsPercents db) _ _ (.refl db) fun state h row _ => ?_
  exact h.trans (modifyWitness_percents _ _)

theorem startLaps_percents (newVirtualTime : Nat) (rows : List (AccountName × Witness)) :
    Always (startLaps newVirtualTime db rows) fun result => KeepsPercents db result.1 := by
  induction rows generalizing db with
  | nil => exact .ok (.refl db)
  | cons row rest ih =>
      rw [startLaps]
      refine .skip fun lap => ?_
      dsimp only
      split
      · exact .pure (.refl db)
      · exact ih.mono fun _ => KeepsPercents.trans (modifyWitness_percents _ _)

theorem resetVirtualScheduleTime_percents :
    Always db.resetVirtualScheduleTime (KeepsPercents db) := by
  refine .forEach (.beside rfl rfl) fun state row _ h => .skip fun lap => .pure ?_
  exact h.trans (modifyWitness_percents _ _)

theorem updateMedianWitnessProps_percents :
    Always db.updateMedianWitnessProps (KeepsPercents db) := by
  intro db' h
  simp only [updateMedianWitnessProps, bind_eq_ok, pure_eq_ok] at h
  obtain ⟨_, -, _, -, _, -, _, -, _, -, _, -, _, -, _, -, _, -, _, -, _, -, _, -, _, -, rfl⟩ := h
  exact .beside rfl rfl

theorem updateWitnessSchedule_percents : Always db.updateWitnessSchedule (KeepsPercents db) := by
  unfold updateWitnessSchedule
  split
  · exact .pure (.refl db)
  · dsimp only
    have helected : KeepsPercents db (db.markSchedule .elected
        (electedRows db.wso.maxVotedWitnesses db.witnessesByVote)) := markSchedule_percents _ _
    have hmarked := helected.trans (markSchedule_percents .timeshare (runnersUp
        ((electedRows db.wso.maxVotedWitnesses db.witnessesByVote).map (·.1))
        (blurtMaxWitnesses - (electedRows db.wso.maxVotedWitnesses db.witnessesByVote).length)
        db.witnessesByScheduleTime).2)
    refine (startLaps_percents _ _).bind fun started hstarted => ?_
    have hadvanced := hmarked.trans hstarted
    refine .branch (resetVirtualScheduleTime_percents.mono fun _ => hadvanced.trans) (.ok hadvanced)
      fun timed h => ?_
    refine .ensure fun _ => .skip fun scheduled => ?_
    exact updateMedianWitnessProps_percents.mono fun _ hmedian => h.trans (hmedian.after rfl rfl)

theorem processSubsidizedAccounts_percents :
    Always db.processSubsidizedAccounts (KeepsPercents db) := by
  refine .skip fun _ => .skip fun _ => ?_
  dsimp only
  split
  · exact .skip fun _ => .pure (.beside rfl rfl)
  · exact .ok (.beside rfl rfl)

/-! ## Funds -/

theorem clearExpiredDelegations_percents :
    Always db.clearExpiredDelegations (KeepsPercents db) := by
  refine .drain (.refl db) fun state row h _ => ?_
  refine (modifyAccount_percents _ _).bind fun returned hreturned => .pure ?_
  exact (h.trans hreturned).trans (.beside rfl rfl)

theorem burnNullAccount_percents (vestingValue : Int) :
    Always (db.burnNullAccount vestingValue) (KeepsPercents db) := by
  refine .skip fun null => ?_
  dsimp only
  refine .branch (adjustBalance_percents _ _) (.ok (.refl db)) fun spent hspent => ?_
  have hsave : ∀ amount, Always (spent.adjustSavingsBalance blurtNullAccount amount)
      (KeepsPercents db) :=
    fun amount => (adjustSavingsBalance_percents _ _).mono fun _ => hspent.trans
  refine .branch (hsave _) (.ok hspent) fun saved hsaved => ?_
  have hrest : ∀ unvested, KeepsPercents db unvested → Always (do
      let unrewarded ← if 0 < null.rewardBlurtBalance then
          unvested.adjustRewardBalance blurtNullAccount (-.blurt null.rewardBlurtBalance) 0
        else .ok unvested
      if 0 < null.rewardVestingBalance then do
        let pendingRewardedVestingShares ←
          shareType (unrewarded.dgp.pendingRewardedVestingShares - null.rewardVestingBalance)
        let pendingRewardedVestingBlurt ←
          shareType (unrewarded.dgp.pendingRewardedVestingBlurt - null.rewardVestingBlurt)
        let dgp := { unrewarded.dgp with pendingRewardedVestingShares, pendingRewardedVestingBlurt }
        { unrewarded with dgp }.modifyAccount blurtNullAccount fun a =>
          .ok { a with rewardVestingBlurt := 0, rewardVestingBalance := 0 }
      else .ok unrewarded) (KeepsPercents db) := by
    intro unvested hunvested
    have hclaim : Always (unvested.adjustRewardBalance blurtNullAccount
        (-.blurt null.rewardBlurtBalance) 0) (KeepsPercents db) :=
      (adjustRewardBalance_percents _ _ _).mono fun _ => hunvested.trans
    dsimp only
    refine .branch hclaim (.ok hunvested) fun unrewarded hunrewarded => ?_
    split
    · refine .skip fun _ => .skip fun _ => (modifyAccount_percents _ _).mono fun _ h => ?_
      exact hunrewarded.trans (h.after rfl rfl)
    · exact .ok hunrewarded
  split
  · refine .skip fun _ => .skip fun _ => (modifyAccount_percents _ _).bind fun unvested h => ?_
    exact hrest unvested (hsaved.trans (h.after rfl rfl))
  · exact hrest saved hsaved

theorem clearNullAccountBalance_percents :
    Always db.clearNullAccountBalance (KeepsPercents db) := by
  refine .skip fun null => ?_
  have hburn : ∀ vestingValue totalBlurt : Int, Always (do
      let burned ← db.burnNullAccount vestingValue
      if 0 < totalBlurt then burned.adjustSupply (-totalBlurt) false else return burned)
      (KeepsPercents db) := by
    intro vestingValue totalBlurt
    refine (burnNullAccount_percents _).bind fun burned h => ?_
    split
    · exact (adjustSupply_percents _ _).mono fun _ => h.trans
    · exact .pure h
  have hrest : ∀ vestingValue : Int, Always (do
      let liquid ← shareType
        (ifPositive null.balance null.balance + ifPositive null.savingsBalance null.savingsBalance)
      let staked ← shareType (liquid + vestingValue)
      let rewarded ← shareType (staked + ifPositive null.rewardBlurtBalance null.rewardBlurtBalance)
      let totalBlurt ←
        shareType (rewarded + ifPositive null.rewardVestingBalance null.rewardVestingBlurt)
      let totalVests ← shareType (ifPositive null.vestingShares null.vestingShares +
        ifPositive null.rewardVestingBalance null.rewardVestingBalance)
      if totalBlurt = 0 ∧ totalVests = 0 then
        return db
      else
        let burned ← db.burnNullAccount vestingValue
        if 0 < totalBlurt then burned.adjustSupply (-totalBlurt) false else return burned)
      (KeepsPercents db) := by
    intro vestingValue
    refine .skip fun _ => .skip fun _ => .skip fun _ => .skip fun _ => .skip fun _ => ?_
    split
    · exact .pure (.refl db)
    · exact hburn _ _
  dsimp only
  split
  · exact .skip fun _ => .skip fun _ => hrest _
  · exact hrest 0

theorem payRewardFunds_percents (reward : Int) :
    Always (db.payRewardFunds reward) fun result => KeepsPercents db result.1 := by
  refine .forEach (.refl db) fun state row _ h => ?_
  refine .skip fun _ => .skip fun _ => .skip fun _ => .skip fun _ => .ensure fun _ => .pure ?_
  exact h.trans (.beside rfl rfl)

theorem processFunds_percents : Always db.processFunds (KeepsPercents db) := by
  refine .skip fun _ => .skip fun _ => .skip fun _ => ?_
  refine (payRewardFunds_percents _).bind fun paid hpaid => ?_
  refine .skip fun _ => .skip fun _ => .skip fun _ => .skip fun _ => .skip fun _ => ?_
  refine .skip fun _ => .skip fun _ => ?_
  have htreasure : ∀ amount, Always (paid.1.adjustBalance blurtTreasuryAccount amount)
      (KeepsPercents db) :=
    fun amount => (adjustBalance_percents _ _).mono fun _ => hpaid.trans
  dsimp only
  refine .branch (htreasure _) (.ok hpaid) fun treasured htreasured => ?_
  refine .skip fun _ => .skip fun _ => .skip fun _ => .skip fun _ => .skip fun _ => ?_
  refine .skip fun _ => (createVesting_percents _ _).bind fun vested hvested => .pure ?_
  exact htreasured.trans (hvested.after rfl rfl)

theorem processRegentAccount_percents : Always db.processRegentAccount (KeepsPercents db) := by
  unfold processRegentAccount
  split
  · refine .skip fun _ => .skip fun _ => ?_
    split
    · refine .skip fun _ => .skip fun _ => ?_
      exact (adjustProxiedShare_percents _ _ _).mono fun _ h => h.after rfl rfl
    · exact .pure (.refl db)
  · exact .pure (.refl db)

/-! ## Power-downs, savings, escrows and voting rights -/

theorem redeemShares_percents (blurt shares : Int) :
    Always (db.redeemShares blurt shares) (KeepsPercents db) :=
  .skip fun _ => .skip fun _ => .pure (.beside rfl rfl)

theorem depositVests_percents (toWithdraw : Int) (state : Database × Int)
    (route : AccountName × WithdrawVestingRoute) :
    Always (depositVests toWithdraw state route) fun next => KeepsPercents state.1 next.1 := by
  unfold depositVests
  split
  · refine .skip fun _ => .skip fun _ => ?_
    split
    · refine (modifyAccount_percents _ _).bind fun credited hcredited => ?_
      exact (adjustProxiedShare_percents _ _ _).bind fun voted hvoted =>
        .pure (hcredited.trans hvoted)
    · exact .pure (.refl _)
  · exact .pure (.refl _)

theorem depositLiquid_percents (toWithdraw : Int) (state : Database × Int × Int)
    (route : AccountName × WithdrawVestingRoute) :
    Always (depositLiquid toWithdraw state route) fun next => KeepsPercents state.1 next.1 := by
  unfold depositLiquid
  split
  · exact .pure (.refl _)
  · refine .skip fun _ => .skip fun _ => .skip fun _ => .skip fun _ => .skip fun _ => ?_
    refine .skip fun _ => ?_
    split
    · refine (modifyAccount_percents _ _).bind fun credited hcredited => ?_
      exact (redeemShares_percents _ _).bind fun redeemed hredeemed =>
        .pure (hcredited.trans hredeemed)
    · exact .pure (.refl _)

theorem processVestingWithdrawal_percents (name : AccountName) :
    Always (db.processVestingWithdrawal name) (KeepsPercents db) := by
  refine .skip fun a => .skip fun toWithdraw => ?_
  have hvests : Always (Outcome.forEach (depositVests toWithdraw) (db, 0) (db.routesOf name))
      fun result => KeepsPercents db result.1 :=
    .forEach (.refl db) fun state route _ h =>
      (depositVests_percents _ state route).mono fun _ => h.trans
  refine hvests.bind fun vested hvested => ?_
  have hliquid : Always (Outcome.forEach (depositLiquid toWithdraw) (vested.1, 0, 0)
      (vested.1.routesOf name)) fun result => KeepsPercents db result.1 :=
    .forEach hvested fun state route _ h => (depositLiquid_percents _ state route).mono fun _ => h.trans
  refine hliquid.bind fun paid hpaid => ?_
  refine .skip fun _ => .skip fun _ => .ensure fun _ => .skip fun _ => .skip fun _ => ?_
  refine (modifyAccount_percents _ _).bind fun withdrawn hwithdrawn => ?_
  refine (redeemShares_percents _ _).bind fun redeemed hredeemed => ?_
  have hdone := (hpaid.trans hwithdrawn).trans hredeemed
  split
  · exact (adjustProxiedShare_percents _ _ _).mono fun _ => hdone.trans
  · exact .pure hdone

theorem processVestingWithdrawals_percents :
    Always db.processVestingWithdrawals (KeepsPercents db) := by
  have hloop : Always (Outcome.drain dueWithdrawal withdrawalTurn
      (db.accounts.rows.length * (db.dgp.time + 1) + 1) (db, db.firstWithdrawal fun _ _ => true))
      fun result => KeepsPercents db result.1 := by
    refine .drain (.refl db) fun state name h _ => .skip fun a => ?_
    exact (processVestingWithdrawal_percents name).bind fun processed hprocessed =>
      .pure (h.trans hprocessed)
  exact hloop.bind fun result h => .pure h

theorem processSavingsWithdraws_percents :
    Always db.processSavingsWithdraws (KeepsPercents db) := by
  refine .drain (.refl db) fun state row h _ => ?_
  refine (adjustBalance_percents _ _).bind fun paid hpaid => ?_
  refine (modifyAccount_percents _ _).bind fun counted hcounted => .pure ?_
  exact ((h.trans hpaid).trans hcounted).trans (.beside rfl rfl)

theorem expireEscrowRatification_percents :
    Always db.expireEscrowRatification (KeepsPercents db) := by
  refine .drain (.refl db) fun state row h _ => ?_
  refine (adjustBalance_percents _ _).bind fun refunded hrefunded => ?_
  refine (adjustBalance_percents _ _).bind fun returned hreturned => .pure ?_
  exact ((h.trans hrefunded).trans hreturned).trans (.beside rfl rfl)

theorem processDeclineVotingRights_percents :
    Always db.processDeclineVotingRights (KeepsPercents db) := by
  refine .drain (.refl db) fun state row h _ => .skip fun account => ?_
  refine (adjustProxiedArray_percents _ _ _).bind fun withdrawn hwithdrawn => ?_
  refine (clearWitnessVotes_percents _).bind fun cleared hcleared => ?_
  refine (modifyAccount_percents _ _).bind fun declined hdeclined => .pure ?_
  exact (((h.trans hwithdrawn).trans hcleared).trans hdeclined).trans (.beside rfl rfl)

theorem accountRecoveryProcessing_percents :
    Always db.accountRecoveryProcessing (KeepsPercents db) := by
  have hstart : KeepsPercents db db := .refl db
  refine Always.bind (Always.drain hstart fun state row h _ => .ok ?_)
    fun requested hrequested => ?_
  · exact h.trans (.beside rfl rfl)
  refine Always.bind (Always.drain hrequested fun state row h _ => .ok ?_)
    fun historic hhistoric => ?_
  · exact h.trans (.beside rfl rfl)
  · refine .drain hhistoric fun state row h _ => ?_
    refine (modifyAccount_percents _ _).bind fun changed hchanged => .pure ?_
    exact (h.trans hchanged).trans (.beside rfl rfl)

/-! ## Payouts of comments -/

theorem payCurator_percents (maxRewards : Int) (totalWeight : Nat) (state : Database × Int)
    (item : AccountName × CommentVote) :
    Always (payCurator maxRewards totalWeight state item) fun next =>
      KeepsPercents state.1 next.1 := by
  refine .skip fun claim => ?_
  split
  · refine .skip fun _ => .skip fun _ => (createRewardVesting_percents _ _).bind fun paid hpaid => ?_
    refine (modifyAccount_percents _ _).bind fun counted hcounted => .pure ?_
    exact hpaid.trans hcounted
  · exact .pure (.refl _)

theorem payCurators_percents (id : Nat) (c : Comment) (maxRewards : Int) :
    Always (db.payCurators id c maxRewards) fun result => KeepsPercents db result.1 := by
  have hloop : Always (Outcome.forEach (payCurator maxRewards c.totalVoteWeight) (db, maxRewards)
      (db.curatorsOf id)) fun result => KeepsPercents db result.1 :=
    .forEach (.refl db) fun state item _ h =>
      (payCurator_percents _ _ state item).mono fun _ => h.trans
  unfold payCurators
  split
  · exact .pure (.refl db)
  · dsimp only
    refine .branch hloop (.ok (.refl db)) fun result hresult => ?_
    exact .skip fun _ => .pure hresult

theorem payBeneficiary_percents (authorTokens : Int) (state : Database × Int)
    (b : BeneficiaryRoute) :
    Always (payBeneficiary authorTokens state b) fun next => KeepsPercents state.1 next.1 := by
  refine .skip fun _ => .skip fun _ => ?_
  dsimp only
  refine .branch (adjustBalance_percents _ _) (.ok (.refl _)) fun treasured htreasured => ?_
  refine .skip fun _ => (createRewardVesting_percents _ _).bind fun paid hpaid => .skip fun _ => ?_
  exact .pure (htreasured.trans hpaid)

theorem payAuthor_percents (id : Nat) (c : Comment) (authorTokens curationTokens total : Int) :
    Always (db.payAuthor id c authorTokens curationTokens total) (KeepsPercents db) := by
  refine .skip fun _ => .skip fun _ => .skip fun _ => .skip fun _ => .skip fun _ => ?_
  refine (createRewardVesting_percents _ _).bind fun paid hpaid => ?_
  refine (getCommentById_found id).bind fun current hcurrent => ?_
  refine .skip fun totalPayout => .skip fun curatorPayout => .skip fun beneficiaryPayout => ?_
  refine .skip fun authorRewards => (modifyAccount_percents _ _).mono fun _ h => ?_
  have hcounted : KeepsPercents paid.1 (paid.1.setComment id { current with
      totalPayoutValue := totalPayout
      curatorPayoutValue := curatorPayout
      beneficiaryPayoutValue := beneficiaryPayout
      authorRewards := authorRewards }) := .comment hcurrent rfl rfl le_rfl
  exact (hpaid.trans hcounted).trans h

theorem payReward_percents (id : Nat) (c : Comment) (reward : Int) :
    Always (db.payReward id c reward) fun result => KeepsPercents db result.1 := by
  refine .skip fun _ => .skip fun _ => .skip fun _ => .skip fun _ => ?_
  refine (payCurators_percents _ _ _).bind fun curated hcurated => .skip fun _ => ?_
  have hloop : ∀ authorTokens, Always (Outcome.forEach (payBeneficiary authorTokens) (curated.1, 0)
      c.beneficiaries) fun result => KeepsPercents db result.1 := fun authorTokens =>
    .forEach hcurated fun state b _ h => (payBeneficiary_percents _ state b).mono fun _ => h.trans
  refine (hloop _).bind fun benefited hbenefited => ?_
  exact (payAuthor_percents _ _ _ _ _).bind fun paid hpaid => .pure (hbenefited.trans hpaid)

theorem cashoutCommentHelper_percents (clearVotes : Bool) (fund : FundContext) (id : Nat)
    (c : Comment) :
    Always (cashoutCommentHelper clearVotes db fund id c) fun result =>
      KeepsPercents db result.1 := by
  have hrest : ∀ paid (claimedReward : Int), KeepsPercents db paid → Always (do
      let c ← paid.getCommentById id
      let updated := paid.setComment id (Comment.cashedOut db.dgp.time c)
      let commentVotes :=
        if clearVotes then
          (updated.votersOf id).foldl (fun votes voter => votes.remove (id, voter))
            updated.commentVotes
        else updated.commentVotes
      return ({ updated with commentVotes }, claimedReward)) fun result =>
        KeepsPercents db result.1 := by
    intro paid claimedReward h
    refine (getCommentById_found id).bind fun current hcurrent => .pure (h.trans ?_)
    exact .comment hcurrent rfl rfl le_rfl
  unfold cashoutCommentHelper
  dsimp only
  split
  · refine .skip fun reward => ?_
    exact .branch (payReward_percents _ _ _) (.ok (.refl db)) fun result => hrest result.1 result.2
  · exact hrest db 0 (.refl db)

theorem openFunds_percents : Always db.openFunds fun result => KeepsPercents db result.1 := by
  refine .forEach (.refl db) fun state row _ h => .skip fun _ => .pure ?_
  exact h.trans (.beside rfl rfl)

theorem cashoutComment_percents (clearVotes : Bool) (state : Database × List FundContext)
    (row : Nat × Comment) :
    Always (cashoutComment clearVotes state row) fun next => KeepsPercents state.1 next.1 := by
  refine .skip fun _ => .skip fun fund => ?_
  refine (cashoutCommentHelper_percents _ _ _ _).bind fun paid hpaid => ?_
  exact .skip fun _ => .pure hpaid

theorem processCommentCashout_percents (clearVotes : Bool) :
    Always (processCommentCashout clearVotes db) (KeepsPercents db) := by
  refine openFunds_percents.bind fun opened hopened => .skip fun funds => ?_
  have hloop : Always (Outcome.drain (fun state => state.1.dueComments.head?)
      (cashoutComment clearVotes) (opened.1.comments.rows.length + 1) (opened.1, funds))
      fun result => KeepsPercents db result.1 :=
    .drain hopened fun state row h _ =>
      (cashoutComment_percents clearVotes state row).mono fun _ => h.trans
  refine hloop.bind fun paid hpaid => .forEach hpaid fun state item _ h => ?_
  exact .skip fun _ => .skip fun _ => .pure (h.trans (.beside rfl rfl))

/-! ## Proposals -/

theorem removeEnded_percents (ids : List Nat) (state : Database × Reducer) :
    KeepsPercents state.1 (removeEnded ids state).1 := by
  induction ids generalizing state with
  | nil => exact .refl _
  | cons id rest ih =>
      have hremoved := removeProposalObject_percents id state
      rw [removeEnded]
      split
      · exact hremoved
      · exact hremoved.trans (ih _)

theorem payProposal_percents (receiver : AccountName) (payment : Int) :
    Always (db.payProposal receiver payment) (KeepsPercents db) :=
  .skip fun _ => .chain (adjustBalance_percents _ _) fun _ => adjustBalance_percents _ _

theorem payProposals_percents (ratio : Nat) (proposals : List (Nat × Proposal)) (budget : Int) :
    Always (payProposals ratio budget db proposals) (KeepsPercents db) := by
  induction proposals generalizing budget db with
  | nil => exact .ok (.refl db)
  | cons row rest ih =>
      rw [payProposals]
      split
      · exact .pure (.refl db)
      · refine .skip fun pay => .ensure fun _ => ?_
        split
        · exact payProposal_percents _ _
        · exact .chain (payProposal_percents _ _) fun paid => .skip fun left => ih left

theorem makePayments_percents (headTime : Nat) :
    Always (db.makePayments headTime) (KeepsPercents db) := by
  have hsettings : ∀ d : Database, KeepsPercents d (d.updateSettings headTime) := by
    intro d
    apply KeepsPercents.beside
    · simp only [updateSettings]
    · simp only [updateSettings]
  unfold makePayments
  split
  · exact .pure (.refl db)
  · dsimp only
    split
    · exact .pure (hsettings db)
    · have hcount : ∀ proposals, Always (db.calculateAllVotes proposals) fun result =>
          KeepsPercents db result.1 := fun proposals =>
        .forEach (.refl db) fun _ _ _ h => .skip fun _ => .pure (h.trans (.beside rfl rfl))
      refine (hcount _).bind fun counted hcounted => .skip fun budget => ?_
      have htransfer : Always (counted.1.transferPayments headTime budget (sortByVotes counted.2))
          (KeepsPercents counted.1) := by
        unfold transferPayments
        split
        · exact .pure (.refl _)
        · exact .skip fun _ => payProposals_percents _ _ _
      refine htransfer.bind fun paid hpaid => .pure ?_
      exact (hcounted.trans hpaid).trans (hsettings paid)

theorem processProposals_percents (host : Host) (headTime : Nat) :
    Always (processProposals host db headTime) (KeepsPercents db) := by
  have hremoved : KeepsPercents db (db.removeOldProposals host headTime) :=
    removeEnded_percents (db.endedProposals headTime) (db, Reducer.make host.spsRemoveThreshold)
  have hrecorded : KeepsPercents db
      ((db.removeOldProposals host headTime).recordFunding headTime) := by
    unfold recordFunding
    split
    · exact hremoved.trans (.beside rfl rfl)
    · exact hremoved
  exact (makePayments_percents headTime).mono fun _ => hrecorded.trans

/-! ## Blocks -/

theorem maintain_percents (host : Host) (headTime : Nat) :
    Always (maintain host db headTime) (KeepsPercents db) := by
  refine .chain clearExpiredDelegations_percents fun _ => ?_
  refine .chain updateWitnessSchedule_percents fun _ => ?_
  refine .chain clearNullAccountBalance_percents fun _ => ?_
  refine .chain processFunds_percents fun _ => ?_
  refine .chain (processCommentCashout_percents _) fun _ => ?_
  refine .chain processVestingWithdrawals_percents fun _ => ?_
  refine .chain processSavingsWithdraws_percents fun _ => ?_
  refine .chain processSubsidizedAccounts_percents fun _ => ?_
  refine .chain accountRecoveryProcessing_percents fun _ => ?_
  refine .chain expireEscrowRatification_percents fun _ => ?_
  refine .chain processDeclineVotingRights_percents fun _ => ?_
  refine .chain (processProposals_percents _ _) fun _ => ?_
  exact .chain processRegentAccount_percents fun _ => processHardforks_percents

end Database

end Ledger

end Blurt
