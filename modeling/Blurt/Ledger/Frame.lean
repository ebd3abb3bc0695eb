import Blurt.Ledger.Overview

/-! # Frames

Most steps of the ledger are made of a few changes that no invariant of hardforks, schedules,
recovery, comments or votes is about. A frame is a relation that these changes are in, and it
contains every such step.
-/

namespace Blurt

namespace Ledger

open Outcome

/-- What decides when a witness is scheduled next. -/
structure Clock where
  votes : Int
  position : Nat
  lastUpdate : Nat
  scheduledTime : Nat
  deriving DecidableEq, Repr

def Witness.clock (w : Witness) : Clock :=
  { votes := w.votes
    position := w.virtualPosition
    lastUpdate := w.virtualLastUpdate
    scheduledTime := w.virtualScheduledTime }

/-- What the votes for a comment have added up to, until it is paid. -/
structure Tally where
  voteRshares : Int
  totalVoteWeight : Nat
  cashoutTime : Nat
  deriving DecidableEq, Repr

def Comment.tally (c : Comment) : Tally :=
  { voteRshares := c.voteRshares
    totalVoteWeight := c.totalVoteWeight
    cashoutTime := c.cashoutTime }

/-- A reward fund that weighs votes by the convergent square root, and that keeps no more than
all of a reward for curation. -/
def RewardFund.Convergent (f : RewardFund) : Prop :=
  (f.curationRewardCurve = .convergentSquareRoot ∧ f.percentCurationRewards ≤ blurt100Percent) ∧
    0 < f.contentConstant ∧ f.contentConstant < 2 ^ 64

/-- A change of an account that keeps its recovery account and leaves no debt of mana. -/
structure Account.Kept (a b : Account) : Prop where
  recovery : b.recoveryAccount = a.recoveryAccount
  mana : 0 ≤ a.votingManabar.currentMana → 0 ≤ b.votingManabar.currentMana

/-- What uses mana leaves no debt. -/
theorem Manabar.useMana_nonneg (bar : Manabar) (used : Int) : 0 ≤ (bar.useMana used).currentMana :=
  le_max_right _ _

namespace Database

/-- The parts of a database that the invariants are about. -/
structure Outlook where
  time : Nat
  headBlockNumber : Nat
  currentWitness : AccountName
  maximumBlockSize : Nat
  votePowerReserveRate : Nat
  wso : WitnessSchedule
  processedHardforks : List Nat
  hardforks : HardforkProperty
  accounts : Store AccountName Account
  authorities : Store AccountName AccountAuthority
  ownerHistory : Store Nat OwnerAuthorityHistory
  recoveryRequests : Store AccountName AccountRecoveryRequest
  changeRecoveryRequests : Store AccountName ChangeRecoveryAccountRequest
  rewardFunds : Store Nat RewardFund
  comments : Store Nat Comment
  commentVotes : Store (Nat × AccountName) CommentVote
  witnesses : Store AccountName Witness
  escrows : Store (AccountName × Nat) Escrow
  nextWitness : Nat
  nextComment : Nat
  nextOwnerHistory : Nat

def outlook (db : Database) : Outlook :=
  { time := db.dgp.time
    headBlockNumber := db.dgp.headBlockNumber
    currentWitness := db.dgp.currentWitness
    maximumBlockSize := db.dgp.maximumBlockSize
    votePowerReserveRate := db.dgp.votePowerReserveRate
    wso := db.wso
    processedHardforks := db.processedHardforks
    hardforks := db.hardforks
    accounts := db.accounts
    authorities := db.authorities
    ownerHistory := db.ownerHistory
    recoveryRequests := db.recoveryRequests
    changeRecoveryRequests := db.changeRecoveryRequests
    rewardFunds := db.rewardFunds
    comments := db.comments
    commentVotes := db.commentVotes
    witnesses := db.witnesses
    escrows := db.escrows
    nextWitness := db.nextIds.witness
    nextComment := db.nextIds.comment
    nextOwnerHistory := db.nextIds.ownerHistory }

/-- Every fund weighs votes by the convergent square root. -/
def Convergent (funds : Store Nat RewardFund) : Prop :=
  ∀ id f, funds.find? id = some f → f.Convergent

/-- A change of the reward funds after which they still weigh votes as they did. -/
structure Refunded (db db' : Database) : Prop where
  same : ∃ funds, db' = { db with rewardFunds := funds }
  convergent : Convergent db.rewardFunds → Convergent db'.rewardFunds

theorem Refunded.refl (db : Database) : Refunded db db := ⟨⟨db.rewardFunds, rfl⟩, id⟩

theorem Refunded.set {db db' : Database} (h : Refunded db db') (id : Nat) {f : RewardFund}
    (hf : Convergent db.rewardFunds → f.Convergent) :
    Refunded db { db' with rewardFunds := db'.rewardFunds.set id f } := by
  obtain ⟨⟨funds, rfl⟩, hconvergent⟩ := h
  refine ⟨⟨_, rfl⟩, fun hdb other g hg => ?_⟩
  rw [Store.find?_set] at hg
  split at hg
  · cases hg
    exact hf hdb
  · exact hconvergent hdb other g hg

/-- A relation that the changes are in that most steps are made of. -/
structure Frame (R : Database → Database → Prop) : Prop where
  refl : ∀ db, R db db
  trans : ∀ {db db' db''}, R db db' → R db' db'' → R db db''
  beside : ∀ {db db'}, db'.outlook = db.outlook → R db db'
  account : ∀ {db name} {a b : Account}, db.accounts.find? name = some a → a.Kept b →
    R db { db with accounts := db.accounts.set name b }
  witness : ∀ {db name w v}, db.witnesses.find? name = some w → v.published = w.published →
    v.clock = w.clock → (w.Ready → v.Ready) → R db { db with witnesses := db.witnesses.set name v }
  comment : ∀ {db id c d}, db.comments.find? id = some c → d.place = c.place → d.tally = c.tally →
    R db (db.setComment id d)
  funds : ∀ {db db'}, Refunded db db' → R db db'
  escrow : ∀ {db key}, R db { db with escrows := db.escrows.remove key }
  witnessVote : ∀ {db db' witness delta}, db.adjustWitnessVote witness delta = .ok db' → R db db'

section Frame

variable {R : Database → Database → Prop} (hR : Frame R) {db db' db'' : Database}

include hR

/-- A step of a frame after a change beside it. -/
theorem Frame.after (h : R db' db'') (hsame : db'.outlook = db.outlook) : R db db'' :=
  hR.trans (hR.beside hsame) h

theorem modifyAccount_framed {name : AccountName} {update : Account → Except String Account}
    (hkeep : ∀ a, Always (update a) a.Kept) :
    Always (db.modifyAccount name update) (R db) := by
  intro db' h
  simp only [modifyAccount, getAccount, bind_eq_ok, require_eq_ok, pure_eq_ok] at h
  obtain ⟨a, ha, b, hb, rfl⟩ := h
  exact hR.account ha (hkeep a b hb)

/-! ## Balances -/

theorem modifyBalance_framed (name : AccountName) (delta : Asset) :
    Always (db.modifyBalance name delta) (R db) := by
  apply modifyAccount_framed hR
  intro a
  split
  · exact .skip fun _ => .ensure fun _ => .pure ⟨rfl, id⟩
  · split
    · exact .skip fun _ => .ensure fun _ => .pure ⟨rfl, id⟩
    · exact .error _

theorem adjustBalance_framed (name : AccountName) (delta : Asset) :
    Always (db.adjustBalance name delta) (R db) := by
  unfold adjustBalance
  refine .skip fun account => ?_
  split
  · exact .skip fun _ => .ensure fun _ => modifyBalance_framed hR name delta
  · exact modifyBalance_framed hR name delta

theorem adjustSavingsBalance_framed (name : AccountName) (delta : Asset) :
    Always (db.adjustSavingsBalance name delta) (R db) := by
  apply modifyAccount_framed hR
  exact fun a => .ensure fun _ => .skip fun _ => .ensure fun _ => .pure ⟨rfl, id⟩

theorem adjustRewardBalance_framed (name : AccountName) (valueDelta : Asset) (shareDelta : Int) :
    Always (db.adjustRewardBalance name valueDelta shareDelta) (R db) := by
  refine .ensure fun _ => .ensure fun _ => modifyAccount_framed hR fun a => ?_
  split
  · exact .skip fun _ => .ensure fun _ => .pure ⟨rfl, id⟩
  · exact .skip fun _ => .skip fun _ => .ensure fun _ => .pure ⟨rfl, id⟩

omit hR in
theorem updateManabar_keep (dgp : GlobalProperties) (a : Account) (newMana : Int) :
    Always (updateManabar dgp a newMana) a.Kept :=
  .skip fun _ => .pure ⟨rfl, fun _ => Manabar.useMana_nonneg _ _⟩

/-! ## Votes -/

theorem adjustWitnessVote_framed (witness : AccountName) (delta : Int) :
    Always (db.adjustWitnessVote witness delta) (R db) :=
  fun _ h => hR.witnessVote h

theorem adjustWitnessVotes_framed (account : AccountName) (delta : Int) :
    Always (db.adjustWitnessVotes account delta) (R db) :=
  .forEach (hR.refl _) fun _ witness _ h =>
    (adjustWitnessVote_framed hR witness delta).mono fun _ => hR.trans h

theorem clearWitnessVotes_framed (account : AccountName) :
    Always (db.clearWitnessVotes account) (R db) := by
  intro db' h
  refine hR.after (modifyAccount_framed hR ?_ db' h) rfl
  exact fun _ => .ok ⟨rfl, id⟩

omit hR in
theorem addProxied_keep (a : Account) (depth : Nat) (delta : VoteDelta) :
    Always (a.addProxied depth delta) a.Kept :=
  .ensure fun _ => .pure ⟨rfl, id⟩

theorem adjustProxiedArray_framed (delta : VoteDelta) (levels : Nat) (name : AccountName) :
    Always (db.adjustProxiedArray name delta levels) (R db) := by
  induction levels generalizing db name with
  | zero =>
      refine .skip fun a => ?_
      split
      · exact .pure (hR.refl _)
      · exact adjustWitnessVotes_framed hR name _
  | succ levels ih =>
      refine .skip fun a => ?_
      split
      · refine (modifyAccount_framed hR fun a => addProxied_keep a _ _).bind fun updated h => ?_
        exact (ih a.proxy).mono fun _ => hR.trans h
      · exact .skip fun _ => adjustWitnessVotes_framed hR name _

theorem adjustProxiedShare_framed (delta : Int) (levels : Nat) (name : AccountName) :
    Always (db.adjustProxiedShare name delta levels) (R db) := by
  induction levels generalizing db name with
  | zero =>
      refine .skip fun a => ?_
      split
      · exact .pure (hR.refl _)
      · exact adjustWitnessVotes_framed hR name _
  | succ levels ih =>
      refine .skip fun a => ?_
      split
      · refine (modifyAccount_framed hR fun a => addProxied_keep a _ _).bind fun updated h => ?_
        exact (ih a.proxy).mono fun _ => hR.trans h
      · exact adjustWitnessVotes_framed hR name _

theorem adjustProxiedWitnessVotesArray_framed (name : AccountName) (delta : VoteDelta) :
    Always (db.adjustProxiedWitnessVotesArray name delta) (R db) :=
  adjustProxiedArray_framed hR delta _ name

theorem adjustProxiedWitnessVotes_framed (name : AccountName) (delta : Int) :
    Always (db.adjustProxiedWitnessVotes name delta) (R db) :=
  adjustProxiedShare_framed hR delta _ name

/-! ## Vesting shares -/

theorem createRewardVesting_framed (toAccount : AccountName) (liquid : Asset) :
    Always (db.createRewardVesting toAccount liquid) fun result => R db result.1 := by
  refine .ensure fun _ => .skip fun price => .skip fun newVesting => ?_
  refine (adjustRewardBalance_framed hR _ _ _).bind fun rewarded h => ?_
  exact .skip fun _ => .skip fun _ => .pure (hR.trans h (hR.beside rfl))

theorem createVesting_framed (toAccount : AccountName) (liquid : Asset) :
    Always (db.createVesting toAccount liquid) fun result => R db result.1 := by
  refine .ensure fun _ => .skip fun price => .skip fun newVesting => ?_
  refine (modifyAccount_framed hR fun a => updateManabar_keep _ a _).bind fun charged hcharged => ?_
  refine (adjustBalance_framed hR _ _).bind fun credited hcredited => .skip fun _ => .skip fun _ => ?_
  refine (adjustProxiedWitnessVotes_framed hR _ _).bind fun voted hvoted => .pure ?_
  exact hR.trans (hR.trans hcharged hcredited) (hR.after hvoted rfl)

end Frame

end Database

end Ledger

end Blurt
