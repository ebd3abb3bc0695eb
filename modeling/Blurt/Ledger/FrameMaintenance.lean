import Blurt.Ledger.FrameOperations

/-! # Maintenance within a frame

The maintenance of a block apart from the schedule, the recovery of accounts and what a payout
does to a comment.
-/

namespace Blurt

namespace Ledger

open Outcome

namespace Database

variable {R : Database → Database → Prop} (hR : Frame R) {db : Database}

include hR

/-! ## Funds -/

theorem clearExpiredDelegations_framed : Always db.clearExpiredDelegations (R db) := by
  refine .drain (hR.refl _) fun state row h _ => ?_
  refine (modifyAccount_framed hR fun a => ?_).bind fun returned hreturned => .pure ?_
  · exact (updateManabar_keep _ a _).bind fun filled hfilled => .skip fun _ => .pure ⟨hfilled.1, hfilled.2⟩
  · exact hR.trans (hR.trans h hreturned) (hR.beside rfl)

theorem adjustSupply_framed (delta : Int) (adjustVesting : Bool) :
    Always (db.adjustSupply delta adjustVesting) (R db) :=
  .skip fun _ => .skip fun _ => .skip fun _ => .ensure fun _ =>
    .pure (hR.beside rfl)

theorem burnNullAccount_framed (vestingValue : Int) :
    Always (db.burnNullAccount vestingValue) (R db) := by
  refine .skip fun null => ?_
  dsimp only
  refine .branch (adjustBalance_framed hR _ _) (.ok (hR.refl _)) fun spent hspent => ?_
  have hsave : ∀ amount, Always (spent.adjustSavingsBalance blurtNullAccount amount) (R db) :=
    fun amount => (adjustSavingsBalance_framed hR _ _).mono fun _ => hR.trans hspent
  refine .branch (hsave _) (.ok hspent) fun saved hsaved => ?_
  have hrest : ∀ unvested, R db unvested → Always (do
      let unrewarded ← if 0 < null.rewardBlurtBalance then
          unvested.adjustRewardBalance blurtNullAccount (-.blurt null.rewardBlurtBalance) 0
        else .ok unvested
      if 0 < null.rewardVestingBalance then do
        let pendingRewardedVestingShares ←
          shareType (unrewarded.dgp.pendingRewardedVestingShares - null.rewardVestingBalance)
        let pendingRewardedVestingBlurt ←
          shareType (unrewarded.dgp.pendingRewardedVestingBlurt - null.rewardVestingBlurt)
        let dgp := { unrewarded.dgp with pendingRewardedVestingShares, pendingRewardedVestingBlurt }
        { unrewarded with dgp }.modifyAccount blurtNullAccount fun a =>
          .ok { a with rewardVestingBlurt := 0, rewardVestingBalance := 0 }
      else .ok unrewarded) (R db) := by
    intro unvested hunvested
    have hclaim : Always (unvested.adjustRewardBalance blurtNullAccount
        (-.blurt null.rewardBlurtBalance) 0) (R db) :=
      (adjustRewardBalance_framed hR _ _ _).mono fun _ => hR.trans hunvested
    dsimp only
    refine .branch hclaim (.ok hunvested) fun unrewarded hunrewarded => ?_
    split
    · refine .skip fun _ => .skip fun _ => (modifyAccount_framed hR ?_).mono fun _ h => ?_
      · exact fun _ => .ok ⟨rfl, id⟩
      · exact hR.trans hunrewarded (hR.after h rfl)
    · exact .ok hunrewarded
  split
  · refine .skip fun _ => .skip fun _ => (modifyAccount_framed hR ?_).bind fun unvested h => ?_
    · exact fun _ => .ok ⟨rfl, id⟩
    · exact hrest unvested (hR.trans hsaved (hR.after h rfl))
  · exact hrest saved hsaved

theorem clearNullAccountBalance_framed : Always db.clearNullAccountBalance (R db) := by
  refine .skip fun null => ?_
  have hburn : ∀ vestingValue totalBlurt : Int, Always (do
      let burned ← db.burnNullAccount vestingValue
      if 0 < totalBlurt then burned.adjustSupply (-totalBlurt) false else return burned)
      (R db) := by
    intro vestingValue totalBlurt
    refine (burnNullAccount_framed hR _).bind fun burned h => ?_
    split
    · exact (adjustSupply_framed hR _ _).mono fun _ => hR.trans h
    · exact .pure h
  have hrest : ∀ vestingValue : Int, Always (do
      let liquid ← shareType
        (ifPositive null.balance null.balance + ifPositive null.savingsBalance null.savingsBalance)
      let staked ← shareType (liquid + vestingValue)
      let rewarded ← shareType (staked + ifPositive null.rewardBlurtBalance null.rewardBlurtBalance)
      let totalBlurt ←
        shareType (rewarded + ifPositive null.rewardVestingBalance null.rewardVestingBlurt)
      let totalVests ← shareType (ifPositive null.vestingShares null.vestingShares +
        ifPositive null.rewardVestingBalance null.rewardVestingBalance)
      if totalBlurt = 0 ∧ totalVests = 0 then
        return db
      else
        let burned ← db.burnNullAccount vestingValue
        if 0 < totalBlurt then burned.adjustSupply (-totalBlurt) false else return burned)
      (R db) := by
    intro vestingValue
    refine .skip fun _ => .skip fun _ => .skip fun _ => .skip fun _ => .skip fun _ => ?_
    split
    · exact .pure (hR.refl _)
    · exact hburn _ _
  dsimp only
  split
  · exact .skip fun _ => .skip fun _ => hrest _
  · exact hrest 0

omit hR in
theorem payRewardFunds_refunded (reward : Int) :
    Always (db.payRewardFunds reward) fun result => Refunded db result.1 := by
  refine .forEach (Refunded.refl db) fun state row hrow h => ?_
  refine .skip fun _ => .skip fun _ => .skip fun _ => .skip fun _ => .ensure fun _ => .pure ?_
  exact h.set row.1 fun hdb => hdb _ row.2 (Store.mem_ordered_iff.mp hrow).1

theorem payRewardFunds_framed (reward : Int) :
    Always (db.payRewardFunds reward) fun result => R db result.1 :=
  (payRewardFunds_refunded reward).mono fun _ => hR.funds

theorem processFunds_framed : Always db.processFunds (R db) := by
  refine .skip fun _ => .skip fun _ => .skip fun _ => ?_
  refine (payRewardFunds_framed hR _).bind fun paid hpaid => ?_
  refine .skip fun _ => .skip fun _ => .skip fun _ => .skip fun _ => .skip fun _ => ?_
  refine .skip fun _ => .skip fun _ => ?_
  have htreasure : ∀ amount, Always (paid.1.adjustBalance blurtTreasuryAccount amount) (R db) :=
    fun amount => (adjustBalance_framed hR _ _).mono fun _ => hR.trans hpaid
  dsimp only
  refine .branch (htreasure _) (.ok hpaid) fun treasured htreasured => ?_
  refine .skip fun _ => .skip fun _ => .skip fun _ => .skip fun _ => .skip fun _ => ?_
  refine .skip fun _ => (createVesting_framed hR _ _).bind fun vested hvested => .pure ?_
  exact hR.trans htreasured (hR.after hvested rfl)

theorem processRegentAccount_framed : Always db.processRegentAccount (R db) := by
  unfold processRegentAccount
  split
  · refine .skip fun _ => .skip fun _ => ?_
    split
    · refine .skip fun _ => .skip fun _ => ?_
      exact (adjustProxiedWitnessVotes_framed hR _ _).mono fun _ h => hR.after h rfl
    · exact .pure (hR.refl _)
  · exact .pure (hR.refl _)

omit hR in
theorem rdApply_range (rd : RdDynamicsParams) (pool : Int) :
    Always (rd.apply pool) fun newPool => 0 ≤ newPool ∧ newPool < 2 ^ 63 := by
  refine .skip fun decay => .pure ?_
  have hrange := wrapInt64_lt rd.maxPoolSize
  omega

theorem processSubsidizedAccounts_framed : Always db.processSubsidizedAccounts (R db) := by
  intro db' h
  simp only [processSubsidizedAccounts, getWitness, bind_eq_ok, require_eq_ok] at h
  obtain ⟨available, -, witness, hwitness, h⟩ := h
  split at h
  · simp only [bind_eq_ok, pure_eq_ok] at h
    obtain ⟨subsidies, hsubsidies, rfl⟩ := h
    let updated := { witness with availableWitnessAccountSubsidies := subsidies }
    have hset := hR.witness (v := updated) hwitness rfl rfl fun hready =>
      ⟨hready.1, rdApply_range _ _ _ hsubsidies⟩
    exact hR.trans hset (hR.beside rfl)
  · cases h
    exact hR.beside rfl

/-! ## Power-downs -/

theorem creditBalance_framed (name : AccountName) (amount : Int) :
    Always (db.creditBalance name amount) (R db) :=
  modifyAccount_framed hR fun _ => .skip fun _ => .pure ⟨rfl, id⟩

theorem redeemShares_framed (blurt shares : Int) : Always (db.redeemShares blurt shares) (R db) :=
  .skip fun _ => .skip fun _ => .pure (hR.beside rfl)

theorem depositVests_framed (toWithdraw : Int) (state : Database × Int)
    (route : AccountName × WithdrawVestingRoute) :
    Always (depositVests toWithdraw state route) fun next => R state.1 next.1 := by
  unfold depositVests
  split
  · refine .skip fun _ => .skip fun _ => ?_
    split
    · refine (modifyAccount_framed hR fun _ => ?_).bind fun credited hcredited => ?_
      · exact .skip fun _ => .pure ⟨rfl, id⟩
      · exact (adjustProxiedWitnessVotes_framed hR _ _).bind fun voted hvoted =>
          .pure (hR.trans hcredited hvoted)
    · exact .pure (hR.refl _)
  · exact .pure (hR.refl _)

theorem depositLiquid_framed (toWithdraw : Int) (state : Database × Int × Int)
    (route : AccountName × WithdrawVestingRoute) :
    Always (depositLiquid toWithdraw state route) fun next => R state.1 next.1 := by
  unfold depositLiquid
  split
  · exact .pure (hR.refl _)
  · refine .skip fun _ => .skip fun _ => .skip fun _ => .skip fun _ => .skip fun _ => .skip fun _ => ?_
    split
    · refine (creditBalance_framed hR _ _).bind fun credited hcredited => ?_
      exact (redeemShares_framed hR _ _).bind fun redeemed hredeemed => .pure (hR.trans hcredited hredeemed)
    · exact .pure (hR.refl _)

omit hR in
theorem withdrawWeek_keep (a : Account) (toWithdraw converted : Int) :
    Always (Account.withdrawWeek a toWithdraw converted) a.Kept := by
  refine .skip fun _ => .skip fun _ => .skip fun _ => ?_
  split
  · exact .pure ⟨rfl, id⟩
  · exact .pure ⟨rfl, id⟩

theorem processVestingWithdrawal_framed (name : AccountName) :
    Always (db.processVestingWithdrawal name) (R db) := by
  refine .skip fun a => .skip fun toWithdraw => ?_
  have hvests : Always (Outcome.forEach (depositVests toWithdraw) (db, 0) (db.routesOf name))
      fun result => R db result.1 :=
    .forEach (hR.refl _) fun state route _ h =>
      (depositVests_framed hR _ state route).mono fun _ => hR.trans h
  refine hvests.bind fun vested hvested => ?_
  have hliquid : Always (Outcome.forEach (depositLiquid toWithdraw) (vested.1, 0, 0)
      (vested.1.routesOf name)) fun result => R db result.1 :=
    .forEach hvested fun state route _ h => (depositLiquid_framed hR _ state route).mono fun _ => hR.trans h
  refine hliquid.bind fun paid hpaid => ?_
  refine .skip fun _ => .skip fun _ => .ensure fun _ => .skip fun _ => .skip fun _ => ?_
  refine (modifyAccount_framed hR fun a => withdrawWeek_keep a _ _).bind fun withdrawn hwithdrawn => ?_
  refine (redeemShares_framed hR _ _).bind fun redeemed hredeemed => ?_
  have hdone := hR.trans (hR.trans hpaid hwithdrawn) hredeemed
  split
  · exact (adjustProxiedWitnessVotes_framed hR _ _).mono fun _ => hR.trans hdone
  · exact .pure hdone

theorem processVestingWithdrawals_framed : Always db.processVestingWithdrawals (R db) := by
  have hloop : Always (Outcome.drain dueWithdrawal withdrawalTurn
      (db.accounts.rows.length * (db.dgp.time + 1) + 1) (db, db.firstWithdrawal fun _ _ => true))
      fun result => R db result.1 := by
    refine .drain (hR.refl _) fun state name h _ => .skip fun a => ?_
    exact (processVestingWithdrawal_framed hR name).bind fun processed hprocessed =>
      .pure (hR.trans h hprocessed)
  exact hloop.bind fun result h => .pure h

/-! ## Savings, escrows and voting rights -/

theorem processSavingsWithdraws_framed : Always db.processSavingsWithdraws (R db) := by
  refine .drain (hR.refl _) fun state row h _ => ?_
  refine (adjustBalance_framed hR _ _).bind fun paid hpaid => ?_
  refine (modifyAccount_framed hR ?_).bind fun counted hcounted => .pure ?_
  · exact fun _ => .ok ⟨rfl, id⟩
  · exact hR.trans (hR.trans (hR.trans h hpaid) hcounted) (hR.beside rfl)

theorem expireEscrowRatification_framed : Always db.expireEscrowRatification (R db) := by
  refine .drain (hR.refl _) fun state row h _ => ?_
  refine (adjustBalance_framed hR _ _).bind fun refunded hrefunded => ?_
  refine (adjustBalance_framed hR _ _).bind fun returned hreturned => .pure ?_
  exact hR.trans (hR.trans (hR.trans h hrefunded) hreturned) hR.escrow

theorem processDeclineVotingRights_framed : Always db.processDeclineVotingRights (R db) := by
  refine .drain (hR.refl _) fun state row h _ => .skip fun account => ?_
  refine (adjustProxiedWitnessVotesArray_framed hR _ _).bind fun withdrawn hwithdrawn => ?_
  refine (clearWitnessVotes_framed hR _).bind fun cleared hcleared => ?_
  refine (modifyAccount_framed hR ?_).bind fun declined hdeclined => .pure ?_
  · exact fun _ => .ok ⟨rfl, id⟩
  · exact hR.trans (hR.trans (hR.trans (hR.trans h hwithdrawn) hcleared) hdeclined) (hR.beside rfl)

/-! ## Payouts of comments -/

theorem payCurators_framed (id : Nat) (c : Comment) (maxRewards : Int) :
    Always (db.payCurators id c maxRewards) fun result => R db result.1 := by
  have hloop : Always (Outcome.forEach (payCurator maxRewards c.totalVoteWeight) (db, maxRewards)
      (db.curatorsOf id)) fun result => R db result.1 := by
    refine .forEach (hR.refl _) fun state item _ h => .skip fun claim => ?_
    split
    · refine .skip fun _ => .skip fun _ => (createRewardVesting_framed hR _ _).bind fun paid hpaid => ?_
      refine (modifyAccount_framed hR fun a => ?_).bind fun counted hcounted => .pure ?_
      · exact .skip fun _ => .pure ⟨rfl, fun h => h⟩
      · exact hR.trans (hR.trans h hpaid) hcounted
    · exact .pure h
  unfold payCurators
  split
  · exact .pure (hR.refl _)
  · dsimp only
    refine .branch hloop (.ok (hR.refl _)) fun result hresult => ?_
    exact .skip fun _ => .pure hresult

theorem payBeneficiary_framed (authorTokens : Int) (state : Database × Int) (b : BeneficiaryRoute) :
    Always (payBeneficiary authorTokens state b) fun next => R state.1 next.1 := by
  refine .skip fun _ => .skip fun _ => ?_
  dsimp only
  refine .branch (adjustBalance_framed hR _ _) (.ok (hR.refl _)) fun treasured htreasured => ?_
  refine .skip fun _ => (createRewardVesting_framed hR _ _).bind fun paid hpaid => .skip fun _ => ?_
  exact .pure (hR.trans htreasured hpaid)

theorem payAuthor_framed (id : Nat) (c : Comment) (authorTokens curationTokens total : Int) :
    Always (db.payAuthor id c authorTokens curationTokens total) (R db) := by
  refine .skip fun _ => .skip fun _ => .skip fun _ => .skip fun _ => .skip fun _ => ?_
  refine (createRewardVesting_framed hR _ _).bind fun paid hpaid => ?_
  refine (getCommentById_found id).bind fun current hcurrent => ?_
  refine .skip fun _ => .skip fun _ => .skip fun _ => .skip fun _ => ?_
  refine (modifyAccount_framed hR fun a => ?_).mono fun _ h => ?_
  · exact .skip fun _ => .pure ⟨rfl, fun h => h⟩
  · refine hR.trans hpaid (hR.trans ?_ h)
    exact hR.comment hcurrent rfl rfl

theorem payReward_framed (id : Nat) (c : Comment) (reward : Int) :
    Always (db.payReward id c reward) fun result => R db result.1 := by
  refine .skip fun _ => .skip fun _ => .skip fun _ => .skip fun _ => ?_
  refine (payCurators_framed hR _ _ _).bind fun curated hcurated => .skip fun _ => ?_
  have hloop : ∀ authorTokens, Always (Outcome.forEach (payBeneficiary authorTokens) (curated.1, 0)
      c.beneficiaries) fun result => R db result.1 := fun authorTokens =>
    .forEach hcurated fun state b _ h => (payBeneficiary_framed hR _ state b).mono fun _ => hR.trans h
  refine (hloop _).bind fun benefited hbenefited => ?_
  exact (payAuthor_framed hR _ _ _ _ _).bind fun paid hpaid => .pure (hR.trans hbenefited hpaid)

/-- The rule for what a payout does to a comment, and with `CLEAR_VOTES` to its votes. -/
def CashedOut (R : Database → Database → Prop) : Prop :=
  ∀ (db : Database) (id now : Nat) (c : Comment) (clearVotes : Bool),
    db.comments.find? id = some c → R db { db.setComment id (Comment.cashedOut now c) with
      commentVotes :=
        if clearVotes then (db.votersOf id).foldl (fun votes voter => votes.remove (id, voter))
          db.commentVotes
        else db.commentVotes }

theorem cashoutCommentHelper_framed (hcash : CashedOut R) (clearVotes : Bool) (fund : FundContext)
    (id : Nat) (c : Comment) :
    Always (cashoutCommentHelper clearVotes db fund id c) fun result => R db result.1 := by
  have hrest : ∀ paid (claimedReward : Int), R db paid → Always (do
      let c ← paid.getCommentById id
      let updated := paid.setComment id (Comment.cashedOut db.dgp.time c)
      let commentVotes :=
        if clearVotes then
          (updated.votersOf id).foldl (fun votes voter => votes.remove (id, voter))
            updated.commentVotes
        else updated.commentVotes
      return ({ updated with commentVotes }, claimedReward)) fun result => R db result.1 := by
    intro paid claimedReward h
    refine (getCommentById_found id).bind fun current hcurrent => .pure ?_
    exact hR.trans h (hcash paid id db.dgp.time current clearVotes hcurrent)
  unfold cashoutCommentHelper
  dsimp only
  split
  · refine .skip fun reward => ?_
    exact .branch (payReward_framed hR _ _ _) (.ok (hR.refl _)) fun result => hrest result.1 result.2
  · exact hrest db 0 (hR.refl _)

omit hR in
theorem decayClaims_keep (now : Nat) (rfo : RewardFund) :
    Always (RewardFund.decayClaims now rfo) fun f => rfo.Convergent → f.Convergent := by
  unfold RewardFund.decayClaims
  dsimp only
  split
  · exact .skip fun _ => .skip fun _ => .pure id
  · exact .skip fun _ => .pure id

omit hR in
theorem openFunds_refunded : Always db.openFunds fun result => Refunded db result.1 := by
  refine .forEach (Refunded.refl db) fun state row hrow h => ?_
  refine (decayClaims_keep _ row.2).bind fun decayed hkeep => .pure ?_
  refine h.set row.1 fun hdb => ?_
  exact hkeep (hdb _ row.2 (Store.mem_ordered_iff.mp hrow).1)

omit hR in
theorem closeFund_refunded (item : FundContext × Nat) :
    Always (closeFund db item) (Refunded db) := by
  intro next hnext
  simp only [closeFund, bind_eq_ok, require_eq_ok, pure_eq_ok] at hnext
  obtain ⟨rfo, hrfo, _, -, rfl⟩ := hnext
  exact (Refunded.refl db).set item.2 fun hdb => hdb _ rfo hrfo

theorem processCommentCashout_framed (hcash : CashedOut R) (clearVotes : Bool) :
    Always (processCommentCashout clearVotes db) (R db) := by
  refine openFunds_refunded.bind fun opened hopened => .skip fun funds => ?_
  have hloop : Always (Outcome.drain (fun state => state.1.dueComments.head?)
      (cashoutComment clearVotes) (opened.1.comments.rows.length + 1) (opened.1, funds))
      fun result => R db result.1 := by
    refine .drain (hR.funds hopened) fun state row h _ => .skip fun _ => .skip fun fund => ?_
    refine (cashoutCommentHelper_framed hR hcash _ _ _ _).bind fun paid hpaid => ?_
    exact .skip fun _ => .pure (hR.trans h hpaid)
  refine hloop.bind fun paid hpaid => .forEach hpaid fun state item _ h => ?_
  exact (closeFund_refunded item).mono fun _ hclosed => hR.trans h (hR.funds hclosed)

/-! ## Proposals -/

theorem removeEnded_framed (ids : List Nat) (state : Database × Reducer) :
    R state.1 (removeEnded ids state).1 := by
  induction ids generalizing state with
  | nil => exact hR.refl _
  | cons id rest ih =>
      have hremoved := removeProposalObject_framed hR id state
      rw [removeEnded]
      split
      · exact hremoved
      · exact hR.trans hremoved (ih _)

theorem calculateAllVotes_framed (proposals : List (Nat × Proposal)) :
    Always (db.calculateAllVotes proposals) fun result => R db result.1 :=
  .forEach (hR.refl _) fun _ _ _ h =>
    .skip fun _ => .pure (hR.trans h (hR.beside rfl))

theorem payProposal_framed (receiver : AccountName) (payment : Int) :
    Always (db.payProposal receiver payment) (R db) := by
  refine .skip fun _ => (adjustBalance_framed hR _ _).bind fun debited hdebited => ?_
  exact (adjustBalance_framed hR _ _).mono fun _ => hR.trans hdebited

theorem payProposals_framed (ratio : Nat) (proposals : List (Nat × Proposal)) (budget : Int) :
    Always (payProposals ratio budget db proposals) (R db) := by
  induction proposals generalizing budget db with
  | nil => exact .ok (hR.refl _)
  | cons row rest ih =>
      rw [payProposals]
      split
      · exact .pure (hR.refl _)
      · refine .skip fun pay => .ensure fun _ => ?_
        split
        · exact payProposal_framed hR _ _
        · refine (payProposal_framed hR _ _).bind fun paid hpaid => .skip fun left => ?_
          exact (ih left).mono fun _ => hR.trans hpaid

theorem makePayments_framed (headTime : Nat) : Always (db.makePayments headTime) (R db) := by
  have hsettings : ∀ d : Database, R d (d.updateSettings headTime) := by
    intro d
    apply hR.beside
    simp only [outlook, updateSettings]
  unfold makePayments
  split
  · exact .pure (hR.refl _)
  · dsimp only
    split
    · exact .pure (hsettings db)
    · refine (calculateAllVotes_framed hR _).bind fun counted hcounted => .skip fun budget => ?_
      have htransfer : Always (counted.1.transferPayments headTime budget (sortByVotes counted.2))
          (R counted.1) := by
        unfold transferPayments
        split
        · exact .pure (hR.refl _)
        · exact .skip fun _ => payProposals_framed hR _ _ _
      refine htransfer.bind fun paid hpaid => .pure ?_
      exact hR.trans (hR.trans hcounted hpaid) (hsettings paid)

theorem processProposals_framed (host : Host) (headTime : Nat) :
    Always (processProposals host db headTime) (R db) := by
  have hremoved : R db (db.removeOldProposals host headTime) :=
    removeEnded_framed hR (db.endedProposals headTime) (db, Reducer.make host.spsRemoveThreshold)
  have hrecorded : R db ((db.removeOldProposals host headTime).recordFunding headTime) := by
    unfold recordFunding
    split
    · exact hR.trans hremoved (hR.beside rfl)
    · exact hremoved
  exact (makePayments_framed hR headTime).mono fun _ => hR.trans hrecorded

/-! ## The schedule and hardforks -/

theorem modifyWitness_framed {name : AccountName} {f : Witness → Witness}
    (hkeep : ∀ w, (f w).published = w.published) (hclock : ∀ w, (f w).clock = w.clock)
    (hstill : ∀ w, w.Ready → (f w).Ready) : R db (db.modifyWitness name f) := by
  unfold modifyWitness
  split
  · rename_i w hw
    exact hR.witness hw (hkeep w) (hclock w) (hstill w)
  · exact hR.refl _

theorem markSchedule_framed (schedule : WitnessScheduleType) (rows : List (AccountName × Witness)) :
    R db (db.markSchedule schedule rows) := by
  unfold markSchedule
  induction rows generalizing db with
  | nil => exact hR.refl _
  | cons row rest ih =>
      rw [List.foldl_cons]
      refine hR.trans (modifyWitness_framed hR ?_ ?_ ?_) ih
      · exact fun _ => rfl
      · exact fun _ => rfl
      · exact fun _ => id

omit hR in
theorem modifyRewardFund_refunded {update : RewardFund → RewardFund}
    (hkeep : ∀ f : RewardFund, f.Convergent → (update f).Convergent) :
    Always (db.modifyRewardFund update) (Refunded db) := by
  intro next hnext
  simp only [modifyRewardFund, getRewardFund, bind_eq_ok, require_eq_ok, pure_eq_ok] at hnext
  obtain ⟨row, hrow, rfl⟩ := hnext
  have hf := Store.mem_rows_iff.mp (List.mem_of_find?_eq_some hrow)
  exact (Refunded.refl db).set row.1 fun hdb => hkeep _ (hdb _ row.2 hf)

theorem hardforkChanges_framed (hardfork : Nat) :
    Always (db.hardforkChanges hardfork) (R db) := by
  unfold hardforkChanges
  split
  · refine (modifyRewardFund_refunded ?_).mono fun _ => hR.funds
    exact fun f h => h
  · refine (modifyRewardFund_refunded ?_).mono fun _ => hR.funds
    exact fun f h => ⟨h.1, show 0 < blurtRewardConstantHf4 ∧ blurtRewardConstantHf4 < 2 ^ 64 by decide⟩
  · refine (modifyRewardFund_refunded ?_).mono fun _ => hR.funds
    exact fun f h => ⟨h.1, show 0 < blurtRewardConstantHf6 ∧ blurtRewardConstantHf6 < 2 ^ 64 by decide⟩
  · exact .ok (hR.refl _)

end Database

end Ledger

end Blurt
