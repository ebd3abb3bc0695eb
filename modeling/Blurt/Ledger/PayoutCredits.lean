import Blurt.Ledger.CuratorShares
import Blurt.Ledger.HardforkVotes
import Blurt.Ledger.PayoutRuns

/-! # What a payout claims and what it credits

The reward that a payout claims is split among the voters, the beneficiaries and the author.
All parts but one are credited as rewards in shares. The part of the author that is called
liquid is credited nowhere, and a reward that is worth no share is credited as liquid and as
pending at once.
-/

namespace Blurt

namespace Ledger

open Outcome

/-! ## Rewards in shares -/

/-- The shares that `create_vesting2` gives for a reward. -/
def GlobalProperties.rewardShares (dgp : GlobalProperties) (amount : Int) : Except String Int := do
  let price ← dgp.getRewardVestingSharePrice
  price.toVests amount

/-- The totals after a reward, which move its price for the next one. -/
def GlobalProperties.addReward (dgp : GlobalProperties) (amount shares : Int) : GlobalProperties :=
  { dgp with
    pendingRewardedVestingShares := dgp.pendingRewardedVestingShares + shares
    pendingRewardedVestingBlurt := dgp.pendingRewardedVestingBlurt + amount }

/-- One more reward, with the sum of the rewards that are worth no share. -/
def takeReward (state : GlobalProperties × Int) (amount : Int) : GlobalProperties × Int :=
  match state.1.rewardShares amount with
  | .ok shares =>
      (state.1.addReward amount shares, if shares = 0 then state.2 + amount else state.2)
  | .error _ => state

/-- How much of the rewards is worth no share when it is paid. -/
def GlobalProperties.sharelessRewards (dgp : GlobalProperties) (rewards : List Int) : Int :=
  (rewards.foldl takeReward (dgp, 0)).2

/-! ## The split of a reward -/

/-- What the voters are offered of a reward. -/
def curationOffer (rf : RewardFund) (reward : Int) : Int :=
  wrapInt64 (UInt128.wrap (UInt128.ofInt reward * rf.percentCurationRewards) / blurt100Percent)

/-- What is left of a reward for the beneficiaries and the author. -/
def authorOffer (rf : RewardFund) (reward : Int) : Int :=
  UInt128.ofInt reward - curationOffer rf reward

namespace Comment

/-- The rewards of the voters. -/
def curatorRewards (c : Comment) (offer : Int) (votes : List (AccountName × CommentVote)) :
    List Int :=
  if c.allowCurationRewards ∧ 0 < c.totalVoteWeight then
    (votes.map fun item => wrapInt64
      (UInt128.wrap (UInt128.ofInt offer * item.2.weight) / c.totalVoteWeight)).filter (· ≠ 0)
  else []

/-- The part of one beneficiary. -/
def beneficiaryPart (offer : Int) (b : BeneficiaryRoute) : Int :=
  (offer * b.weight).tdiv blurt100Percent

/-- The part of the author. -/
def ownPart (c : Comment) (offer : Int) : Int :=
  offer - (c.beneficiaries.map (beneficiaryPart offer)).sum

/-- What is called liquid in the part of the author. -/
def liquidPart (c : Comment) (offer : Int) : Int :=
  (c.ownPart offer * c.percentBlurt).tdiv (4 * blurt100Percent)

/-- The rewards in shares of a payout, in their order. The treasury is paid in liquid. -/
def rewards (c : Comment) (rf : RewardFund) (votes : List (AccountName × CommentVote))
    (reward : Int) : List Int :=
  let offer := authorOffer rf reward
  c.curatorRewards (curationOffer rf reward) votes ++
    (c.beneficiaries.map fun b =>
      if b.account = blurtTreasuryAccount then 0 else beneficiaryPart offer b) ++
    [c.ownPart offer - c.liquidPart offer]

end Comment

/-! ## What is credited -/

/-- What accounts have in their balances and in liquid rewards, and the pending rewards in
shares. -/
def Books.paidOut (b : Books) : Int :=
  (b.holders.sum fun _ h => h.funds .balance + h.funds .rewardBlurtBalance) +
    b.totals.pendingRewardedVestingBlurt

theorem Books.paidOut_credit {b : Books} {name : AccountName} {h : Holder}
    (hh : b.holders.find? name = some h) (fund : Fund) (amount : Int) :
    (b.credit name fund amount).paidOut = b.paidOut +
      if fund = .balance ∨ fund = .rewardBlurtBalance then amount else 0 := by
  simp only [paidOut, credit, adjust, Table.sum_adjust hh]
  cases fund <;> simp [Holder.credit] <;> omega

namespace Database

variable {db db' start : Database} {name : AccountName} {paid amount : Int} {rewards : List Int}

def paidOut (db : Database) : Int :=
  (db.accounts.sum fun _ a => a.balance + a.rewardBlurtBalance) + db.dgp.pendingRewardedVestingBlurt

theorem paidOut_eq : db.paidOut = db.books.paidOut := by
  simp only [Books.paidOut, books, Table.sum_view]
  rfl

/-- A reward in shares is pending. If it is worth no share, it is a liquid reward as well. -/
theorem createRewardVesting_paidOut {shares : Int}
    (h : db.createRewardVesting name (.blurt amount) = .ok (db', shares)) :
    db.dgp.rewardShares amount = .ok shares ∧ db'.dgp = db.dgp.addReward amount shares ∧
      db'.paidOut = db.paidOut + amount + if shares = 0 then amount else 0 := by
  simp only [createRewardVesting, adjustRewardBalance, bind_eq_ok, ensure_eq_ok, shareType_eq_ok,
    pure_eq_ok, Prod.mk.injEq] at h
  obtain ⟨_, -, price, hprice, newVesting, hvesting, rewarded, ⟨_, -, _, -, hrewarded⟩, _,
    ⟨-, rfl⟩, _, ⟨-, rfl⟩, rfl, rfl⟩ := h
  obtain ⟨a, b, ha, -, hframe⟩ := modifyAccount_eq_ok.mp hrewarded
  have hh := find?_holders_some ha
  have hdgp : rewarded.dgp = db.dgp := by rw [← hframe]
  refine ⟨bind_eq_ok.mpr ⟨price, hprice, hvesting⟩, by rw [hdgp]; rfl, ?_⟩
  have hpending : ({ rewarded with dgp := { rewarded.dgp with
      pendingRewardedVestingShares := rewarded.dgp.pendingRewardedVestingShares + newVesting
      pendingRewardedVestingBlurt := rewarded.dgp.pendingRewardedVestingBlurt + amount
      } } : Database).paidOut = rewarded.paidOut + amount :=
    (add_assoc _ _ _).symm
  refine hpending.trans ?_
  by_cases hzero : newVesting = 0
  · subst hzero
    obtain ⟨hcredit, -⟩ := modifyRewardBalance_liquid hrewarded
    rw [paidOut_eq, paidOut_eq, hcredit, Books.paidOut_credit hh, if_pos (.inr rfl), if_pos rfl]
    exact add_right_comm _ _ _
  · obtain ⟨hcredit, -⟩ := modifyRewardBalance_shares hzero hrewarded
    have hfirst := Books.find?_credit_some hh .rewardVestingBlurt (Asset.blurt amount).amount
    have hsame : rewarded.paidOut = db.paidOut := by
      rw [paidOut_eq, paidOut_eq, hcredit, Books.paidOut_credit hfirst, Books.paidOut_credit hh]
      simp
    rw [hsame, if_neg hzero, add_zero]

/-- `db` comes from `start` by paying `paid`, of which `rewards` were rewards in shares. -/
def Credited (start : Database) (paid : Int) (rewards : List Int) (db : Database) : Prop :=
  rewards.foldl takeReward (start.dgp, 0) = (db.dgp, db.paidOut - start.paidOut - paid)

namespace Credited

theorem refl (db : Database) : Credited db 0 [] db := by
  simp [Credited]

theorem quiet (h : Credited start paid rewards db) (hbooks : db'.books = db.books)
    (hdgp : db'.dgp = db.dgp) : Credited start paid rewards db' := by
  rw [Credited, hdgp, paidOut_eq, hbooks, ← paidOut_eq]
  exact h

theorem reward {shares : Int} (h : Credited start paid rewards db)
    (hpaid : db.createRewardVesting name (.blurt amount) = .ok (db', shares)) :
    Credited start (paid + amount) (rewards ++ [amount]) db' := by
  obtain ⟨hshares, hdgp, hout⟩ := createRewardVesting_paidOut hpaid
  rw [Credited, List.foldl_append, h, List.foldl_cons, List.foldl_nil, takeReward]
  simp only [hshares, hdgp, hout, Prod.mk.injEq, true_and]
  split <;> omega

theorem treasury (h : Credited start paid rewards db)
    (hpaid : db.adjustBalance name (.blurt amount) = .ok db') :
    Credited start (paid + amount) rewards db' := by
  obtain ⟨a, ha⟩ := adjustBalance_found hpaid
  obtain ⟨hbooks, hframe⟩ := adjustBalance_blurt hpaid rfl
  have hdgp : db'.dgp = db.dgp := by rw [hframe]
  have hout : db'.paidOut = db.paidOut + amount := by
    rw [paidOut_eq, paidOut_eq, hbooks, Books.paidOut_credit (find?_holders_some ha),
      if_pos (.inl rfl)]
    rfl
  rw [Credited, h, hdgp, hout]
  congr 1
  omega

theorem relabel {paid' : Int} (h : Credited start paid rewards db) (heq : paid = paid') :
    Credited start paid' rewards db := heq ▸ h

end Credited

/-! ## The parts of a payout -/

/-- The rewards of the voters that are offered `offer`. -/
theorem payCurators_credited {id : Nat} {c : Comment} {offer claimed unclaimed : Int}
    (h : db.payCurators id c offer = .ok (db', claimed, unclaimed)) :
    Credited db claimed (c.curatorRewards offer (db.curatorsOf id)) db' := by
  have hloop : ∀ (votes : List (AccountName × CommentVote)) {state final : Database × Int}
      {paid : Int} {rewards : List Int}, Credited db paid rewards state.1 →
      Outcome.forEach (payCurator offer c.totalVoteWeight) state votes = .ok final →
      Credited db (paid + (state.2 - final.2)) (rewards ++ (votes.map fun item => wrapInt64
        (UInt128.wrap (UInt128.ofInt offer * item.2.weight) / c.totalVoteWeight)).filter (· ≠ 0))
          final.1 := by
    intro votes
    induction votes with
    | nil =>
        intro state final paid rewards hstate hrun
        cases hrun
        simpa using hstate
    | cons item rest ih =>
        intro state final paid rewards hstate hrun
        obtain ⟨next, hnext, hrun⟩ := forEach_cons_eq_ok.mp hrun
        simp only [payCurator, curationClaim, bind_eq_ok, UInt128.div_eq_ok, UInt128.toUInt64_eq_ok,
          pure_eq_ok] at hnext
        obtain ⟨claim, ⟨_, ⟨-, rfl⟩, _, ⟨-, rfl⟩, rfl⟩, hnext⟩ := hnext
        rw [List.map_cons]
        split at hnext
        · rename_i hclaim
          simp only [bind_eq_ok, shareType_eq_ok, Prod.exists, pure_eq_ok] at hnext
          obtain ⟨_, ⟨-, rfl⟩, _, -, paid, shares, hpaid, counted, hcounted, rfl⟩ := hnext
          obtain ⟨hquiet, hframe⟩ := modifyAccount_quiet hcounted fun a b hb => by
            simp only [bind_eq_ok, shareType_eq_ok, pure_eq_ok] at hb
            obtain ⟨_, -, rfl⟩ := hb
            rfl
          have hcounted := (hstate.reward hpaid).quiet hquiet (by rw [hframe])
          have hrest := ih hcounted hrun
          rw [List.filter_cons_of_pos (by simpa using hclaim)]
          rw [List.append_assoc] at hrest
          refine hrest.relabel ?_
          dsimp only
          omega
        · rename_i hclaim
          cases hnext
          rw [List.filter_cons_of_neg (by simpa using hclaim)]
          exact ih hstate hrun
  unfold payCurators at h
  split at h
  · rename_i hnone
    cases h
    rw [Comment.curatorRewards, if_neg (by simp_all)]
    exact .refl db
  · rename_i hallowed
    have hallowed : c.allowCurationRewards = true := by simpa using hallowed
    have hend : ∀ {state : Database} {left : Int} {rewards : List Int},
        Credited db (offer - left) rewards state → (do
          let claimedRewards ← shareType (offer - left)
          return (state, claimedRewards, left)) = Except.ok (db', claimed, unclaimed) →
        Credited db claimed rewards db' := by
      intro state left rewards hstate hrun
      simp only [bind_eq_ok, shareType_eq_ok, pure_eq_ok, Prod.mk.injEq] at hrun
      obtain ⟨_, ⟨-, rfl⟩, rfl, rfl, -⟩ := hrun
      exact hstate
    split at h
    · rename_i hvotes
      obtain ⟨⟨state, left⟩, hstate, h⟩ := bind_eq_ok.mp h
      have hcredited := hloop _ (.refl db) hstate
      rw [List.nil_append, zero_add] at hcredited
      rw [Comment.curatorRewards, if_pos ⟨hallowed, hvotes⟩]
      exact hend hcredited h
    · rename_i hvotes
      obtain ⟨⟨state, left⟩, hstate, h⟩ := bind_eq_ok.mp h
      cases hstate
      rw [Comment.curatorRewards, if_neg fun hpaid => hvotes hpaid.2]
      exact hend ((Credited.refl db).relabel (sub_self _).symm) h

theorem payBeneficiaries_credited {offer : Int} (beneficiaries : List BeneficiaryRoute)
    {state final : Database × Int} (hstate : Credited start paid rewards state.1)
    (h : Outcome.forEach (payBeneficiary offer) state beneficiaries = .ok final) :
    final.2 = state.2 + (beneficiaries.map (Comment.beneficiaryPart offer)).sum ∧
      Credited start (paid + (final.2 - state.2))
        (rewards ++ beneficiaries.map fun b =>
          if b.account = blurtTreasuryAccount then 0 else Comment.beneficiaryPart offer b)
        final.1 := by
  induction beneficiaries generalizing state paid rewards with
  | nil =>
      cases h
      simpa using hstate
  | cons b rest ih =>
      obtain ⟨next, hnext, h⟩ := forEach_cons_eq_ok.mp h
      simp only [payBeneficiary, bind_eq_ok, shareType_eq_ok, safeDiv_eq_ok] at hnext
      obtain ⟨_, ⟨-, rfl⟩, tokens, ⟨-, htokens⟩, hnext⟩ := hnext
      have hpart : tokens = Comment.beneficiaryPart offer b := htokens.symm
      have hpaid : next.2 = state.2 + tokens ∧ Credited start (paid + tokens) (rewards ++
          [if b.account = blurtTreasuryAccount then 0 else tokens]) next.1 := by
        split at hnext
        all_goals
          rename_i htreasury
          simp only [bind_eq_ok, shareType_eq_ok, Prod.exists, pure_eq_ok] at hnext
          obtain ⟨treasured, htreasured, _, -, paid, shares, hpaid, _, ⟨-, rfl⟩, rfl⟩ := hnext
        · refine ⟨rfl, ?_⟩
          rw [if_pos htreasury]
          exact (((hstate.treasury htreasured).reward hpaid).relabel (add_zero _))
        · cases htreasured
          refine ⟨rfl, ?_⟩
          rw [if_neg htreasury]
          exact hstate.reward hpaid
      obtain ⟨htotal, hcredited⟩ := hpaid
      obtain ⟨hrest, hall⟩ := ih hcredited h
      rw [htotal] at hrest hall
      rw [List.map_cons, List.map_cons, List.sum_cons, ← hpart]
      refine ⟨by omega, ?_⟩
      rw [List.append_assoc] at hall
      exact hall.relabel (by omega)

/-- The liquid part of the author is missing. -/
theorem payAuthor_credited {id : Nat} {c : Comment} {offer curationTokens total vested : Int}
    (hstate : Credited start paid rewards db)
    (hvested : vested =
      offer - total - ((offer - total) * c.percentBlurt).tdiv (4 * blurt100Percent))
    (h : db.payAuthor id c offer curationTokens total = .ok db') :
    Credited start (paid + vested) (rewards ++ [vested]) db' := by
  subst hvested
  simp only [payAuthor, bind_eq_ok, shareType_eq_ok, safeDiv_eq_ok, Prod.exists] at h
  obtain ⟨_, ⟨-, rfl⟩, _, ⟨-, rfl⟩, _, ⟨-, rfl⟩, _, ⟨-, rfl⟩, _, -, paid, shares, hpaid, current,
    hcurrent, _, -, _, -, _, -, _, -, hcounted⟩ := h
  obtain ⟨hquiet, hframe⟩ := modifyAccount_quiet hcounted fun a b hb => by
    simp only [bind_eq_ok, shareType_eq_ok, pure_eq_ok] at hb
    obtain ⟨_, -, rfl⟩ := hb
    rfl
  exact (hstate.reward hpaid).quiet hquiet (by rw [hframe]; rfl)

/-! ## Payouts -/

/-- What a payout claims is what it pays and the liquid part of the author. -/
theorem payReward_credited {id : Nat} {c : Comment} {reward claimed : Int} {fundId : Nat}
    {rf : RewardFund} (hfund : db.getRewardFund = .ok (fundId, rf))
    (h : db.payReward id c reward = .ok (db', claimed)) :
    Credited db (claimed - c.liquidPart (authorOffer rf reward))
      (c.rewards rf (db.curatorsOf id) reward) db' := by
  simp only [payReward, bind_eq_ok, shareType_eq_ok, UInt128.toUInt64_eq_ok, Prod.exists,
    pure_eq_ok, Prod.mk.injEq] at h
  obtain ⟨foundId, found, hfound, _, ⟨-, rfl⟩, _, ⟨-, rfl⟩, offer, ⟨-, hoffer⟩, curated,
    curationTokens, unclaimed, hcurated, _, ⟨-, rfl⟩, benefited, total, hbenefited, paid, hpaid,
    rfl, rfl⟩ := h
  have hsame : found = rf := congrArg Prod.snd (Except.ok.inj (hfound.symm.trans hfund))
  subst hsame
  have hauthor : authorOffer found reward = offer := hoffer
  have hcredited := payCurators_credited hcurated
  obtain ⟨htotal, hbenefit⟩ := payBeneficiaries_credited c.beneficiaries hcredited hbenefited
  have hown : c.ownPart offer = offer - total := by
    rw [Comment.ownPart]
    omega
  have hvested : c.ownPart offer - c.liquidPart offer =
      offer - total - ((offer - total) * c.percentBlurt).tdiv (4 * blurt100Percent) := by
    rw [Comment.liquidPart, hown]
  have hfinal := payAuthor_credited hbenefit hvested hpaid
  rw [Comment.rewards, hauthor]
  refine hfinal.relabel ?_
  dsimp only
  omega

/-- The payout of a comment credits what it claims: nothing is claimed, or what is called
liquid in the part of the author is as much as the rewards that are worth no share. -/
def CreditsClaim (db : Database) (fund : FundContext) (id : Nat) (c : Comment) : Prop :=
  0 < c.netRshares → ∀ reward, db.commentReward fund c = .ok reward → 0 < reward →
    ∀ fundId rf, db.getRewardFund = .ok (fundId, rf) →
      c.liquidPart (authorOffer rf (wrapInt64 reward)) =
        db.dgp.sharelessRewards (c.rewards rf (db.curatorsOf id) (wrapInt64 reward))

/-- What the payout of a comment claims from the reward fund is what it credits exactly
then. -/
theorem cashoutCommentHelper_credits_iff {clearVotes : Bool} {fund : FundContext} {id : Nat}
    {c : Comment} {claimed : Int}
    (h : cashoutCommentHelper clearVotes db fund id c = .ok (db', claimed)) :
    claimed = db'.paidOut - db.paidOut ↔ db.CreditsClaim fund id c := by
  have hrest : ∀ {state : Database} {taken : Int}, (do
      let c ← state.getCommentById id
      let updated := state.setComment id (Comment.cashedOut db.dgp.time c)
      let commentVotes :=
        if clearVotes then
          (updated.votersOf id).foldl (fun votes voter => votes.remove (id, voter))
            updated.commentVotes
        else updated.commentVotes
      return ({ updated with commentVotes }, taken)) = Except.ok (db', claimed) →
      claimed = taken ∧ db'.paidOut = state.paidOut := by
    intro state taken hrun
    simp only [bind_eq_ok, pure_eq_ok, Prod.mk.injEq] at hrun
    obtain ⟨current, -, rfl, rfl⟩ := hrun
    exact ⟨rfl, rfl⟩
  unfold cashoutCommentHelper at h
  dsimp only at h
  split at h
  · rename_i hpositive
    obtain ⟨reward, hreward, h⟩ := bind_eq_ok.mp h
    split at h
    · rename_i hpaid
      obtain ⟨⟨paid, taken⟩, hrewarded, h⟩ := bind_eq_ok.mp h
      obtain ⟨hclaimed, hkept⟩ := hrest h
      obtain ⟨⟨fundId, rf⟩, hfund, -⟩ := bind_eq_ok.mp hrewarded
      have hcredited := congrArg Prod.snd (payReward_credited hfund hrewarded)
      have hexact : db.CreditsClaim fund id c ↔ c.liquidPart (authorOffer rf (wrapInt64 reward)) =
          db.dgp.sharelessRewards (c.rewards rf (db.curatorsOf id) (wrapInt64 reward)) := by
        refine ⟨fun hcredits => hcredits hpositive reward hreward hpaid fundId rf hfund, ?_⟩
        rintro heq - reward' hreward' - fundId' rf' hfund'
        cases hreward.symm.trans hreward'
        cases hfund.symm.trans hfund'
        exact heq
      rw [hexact, GlobalProperties.sharelessRewards, hcredited, hclaimed, hkept]
      dsimp only
      omega
    · rename_i hnone
      obtain ⟨hclaimed, hkept⟩ := hrest h
      dsimp only at hclaimed hkept
      refine iff_of_true (by omega) ?_
      intro _ reward' hreward' hpaid'
      cases hreward.symm.trans hreward'
      exact absurd hpaid' hnone
  · rename_i hnone
    obtain ⟨hclaimed, hkept⟩ := hrest h
    dsimp only at hclaimed hkept
    exact iff_of_true (by omega) fun hpositive => absurd hpositive hnone

end Database

namespace Sample

open Database

/-- A chain on which a post that bob votes for is worth BLURT. -/
def richChain : GenesisArgs :=
  let key : Authority := singleKey 2
  { freshChain with
    snapshot := ["alice", "bob"].map fun name =>
      { name, owner := key, active := key, posting := key, memo := 2, balance := 1000000
        power := 100000000000 } }

def postOfAlice : Operation :=
  .comment
    { parentAuthor := blurtRootPostParent
      parentPermlink := "tag"
      author := "alice"
      permlink := "post"
      title := "title"
      body := "body"
      jsonMetadata := "" }

/-- The block of the second round number `i`, the witness of which votes for hardfork 6. -/
def latestVotingBlock (i : Nat) : LedgerBlock :=
  { quietBlock (21 + i) with
    witness := initMinerName (secondRound.getD i 0)
    extensions :=
      if i < 3 then [] else [.hardforkVersionVote (hardforkVersions 6) (blurtGenesisTime + 120)] }

/-- The block of a witness that runs the version of hardfork 6. -/
def upgraded (b : LedgerBlock) : LedgerBlock :=
  { b with extensions := [.version (hardforkVersions 6)] }

/-- After hardfork 6 alice posts and bob votes. -/
def upgradedBlocks : List LedgerBlock :=
  (List.range 21).map quietBlock ++ (List.range 21).map latestVotingBlock ++ [
    upgraded (signedBlock 42 [2] [postOfAlice]),
    upgraded (signedBlock 43 [2] [.vote (curatorVote "bob" 10000)])]

/-- A week after the post. -/
def upgradedPayout : LedgerBlock :=
  upgraded { quietBlock 44 with timestamp := blurtGenesisTime + 3 * 44 + 7 * 86400 + 3 }

/-- The same before the first hardfork. -/
def plainBlocks : List LedgerBlock := [
  signedBlock 0 [2] [postOfAlice],
  signedBlock 1 [2] [.vote (curatorVote "bob" 10000)]]

def plainPayout : LedgerBlock :=
  { quietBlock 2 with timestamp := blurtGenesisTime + 3 + 7 * 86400 }

/-- The payouts of a block up to the first, which finds its comment in the first fund. -/
def payoutStart (db : Database) (b : LedgerBlock) :
    Except String (Database × FundContext × Nat × Comment) := do
  let returned ← beforeSchedule plainHost db b
  let scheduled ← returned.updateWitnessSchedule
  let burned ← scheduled.clearNullAccountBalance
  let funded ← burned.processFunds
  let (opened, contexts) ← funded.openFunds
  let funds ← Outcome.forEach opened.addClaim contexts opened.dueComments
  let fund ← Outcome.require funds[0]? "out of range"
  let (id, c) ← Outcome.require opened.dueComments.head? "no comment"
  return (opened, fund, id, c)

/-- The first payout of a block after others, and what it claims. -/
def payoutOutcome (blocks : List LedgerBlock) (b : LedgerBlock) :
    Except String (Database × Database × FundContext × Nat × Comment × Database × Int) := do
  let db ← afterBlocks richChain blocks
  let (start, fund, id, c) ← payoutStart db b
  let (paid, claimed) ← cashoutCommentHelper true start fund id c
  return (db, start, fund, id, c, paid, claimed)

theorem payoutOutcome_eq_ok {blocks : List LedgerBlock} {b : LedgerBlock} {db start paid : Database}
    {fund : FundContext} {id : Nat} {c : Comment} {claimed : Int}
    (h : payoutOutcome blocks b = .ok (db, start, fund, id, c, paid, claimed)) :
    Reachable plainHost db ∧ payoutStart db b = .ok (start, fund, id, c) ∧
      cashoutCommentHelper true start fund id c = .ok (paid, claimed) := by
  simp only [payoutOutcome, bind_eq_ok, Prod.exists, pure_eq_ok, Prod.mk.injEq] at h
  obtain ⟨_, hdb, _, _, _, _, hstart, _, _, hpaid, rfl, rfl, rfl, rfl, rfl, rfl, rfl⟩ := h
  exact ⟨afterBlocks_reachable hdb, hstart, hpaid⟩

theorem payoutOutcome_plain : (payoutOutcome plainBlocks plainPayout).toOption.any
    fun (_, start, _, _, c, paid, claimed) =>
      c.percentBlurt = 0 ∧ claimed = 3437 ∧ paid.paidOut - start.paidOut = 3437 := by
  decide +kernel

theorem payoutOutcome_upgraded : (payoutOutcome upgradedBlocks upgradedPayout).toOption.any
    fun (_, start, _, _, c, paid, claimed) =>
      c.percentBlurt = 10000 ∧ claimed = 154398 ∧ paid.paidOut - start.paidOut = 116181 := by
  decide +kernel

/-- Before hardfork 6 the author has no liquid part. -/
theorem plainPayout_credits : ∃ (db start paid : Database) (fund : FundContext) (id : Nat)
    (c : Comment) (claimed : Int), Reachable plainHost db ∧
      payoutStart db plainPayout = .ok (start, fund, id, c) ∧ c.percentBlurt = 0 ∧
      cashoutCommentHelper true start fund id c = .ok (paid, claimed) ∧
      claimed = 3437 ∧ paid.paidOut - start.paidOut = 3437 ∧ start.CreditsClaim fund id c := by
  obtain ⟨⟨db, start, fund, id, c, paid, claimed⟩, hrun, hfacts⟩ :=
    (Option.any_eq_true _ _).mp payoutOutcome_plain
  obtain ⟨hpercent, hclaimed, hcredited⟩ := of_decide_eq_true hfacts
  obtain ⟨hreachable, hstart, hpaid⟩ := payoutOutcome_eq_ok (eq_ok_of_toOption hrun)
  exact ⟨db, start, paid, fund, id, c, claimed, hreachable, hstart, hpercent, hpaid, hclaimed,
    hcredited, (cashoutCommentHelper_credits_iff hpaid).mp (hclaimed.trans hcredited.symm)⟩

/-- After hardfork 6 a quarter of what is due to alice is claimed and not credited. -/
theorem upgradedPayout_missing : ∃ (db start paid : Database) (fund : FundContext) (id : Nat)
    (c : Comment) (claimed : Int), Reachable plainHost db ∧
      payoutStart db upgradedPayout = .ok (start, fund, id, c) ∧ c.percentBlurt = 10000 ∧
      cashoutCommentHelper true start fund id c = .ok (paid, claimed) ∧
      claimed = 154398 ∧ paid.paidOut - start.paidOut = 116181 := by
  obtain ⟨⟨db, start, fund, id, c, paid, claimed⟩, hrun, hfacts⟩ :=
    (Option.any_eq_true _ _).mp payoutOutcome_upgraded
  obtain ⟨hpercent, hclaimed, hcredited⟩ := of_decide_eq_true hfacts
  obtain ⟨hreachable, hstart, hpaid⟩ := payoutOutcome_eq_ok (eq_ok_of_toOption hrun)
  exact ⟨db, start, paid, fund, id, c, claimed, hreachable, hstart, hpercent, hpaid, hclaimed,
    hcredited⟩

end Sample

end Ledger

end Blurt
