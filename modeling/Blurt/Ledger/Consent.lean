import Blurt.Ledger.AccountBooks
import Blurt.Ledger.BooksFrames
import Blurt.Ledger.CommentBooks
import Blurt.Ledger.GovernanceBooks
import Blurt.Ledger.Transaction
import Blurt.Ledger.TransferBooks
import Blurt.Ledger.VestingBooks

/-! # Funds move only with authority

An account is spared by a change if the change takes nothing from it: no fund that it
holds shrinks, and the shares it lends, its power-down and its proxy stay. Every operation
spares all accounts but those that it names among its required authorities.
-/

namespace Blurt

namespace Ledger

/-- A fund that only its account may spend. -/
def Fund.isOwn : Fund → Bool
  | .delegatedVestingShares => false
  | .receivedVestingShares => false
  | _ => true

/-- Nothing is taken from the account. -/
structure Holder.Spared (h k : Holder) : Prop where
  funds : ∀ fund, fund.isOwn → h.funds fund ≤ k.funds fund
  delegated : k.funds .delegatedVestingShares = h.funds .delegatedVestingShares
  powerDown : k.powerDown = h.powerDown
  proxy : k.proxy = h.proxy

/-- Nothing is taken from the account from `a` to `b`. -/
def Account.Spared (a b : Account) : Prop := a.holder.Spared b.holder

theorem Holder.Spared.refl (h : Holder) : h.Spared h := ⟨fun _ _ => le_rfl, rfl, rfl, rfl⟩

theorem Holder.Spared.trans {h k l : Holder} (hk : h.Spared k) (kl : k.Spared l) : h.Spared l :=
  ⟨fun fund hown => (hk.funds fund hown).trans (kl.funds fund hown),
    kl.delegated.trans hk.delegated, kl.powerDown.trans hk.powerDown, kl.proxy.trans hk.proxy⟩

/-- More of a fund takes nothing away. -/
theorem Holder.spared_credit (h : Holder) {fund : Fund} {amount : Int}
    (hamount : fund.isOwn → 0 ≤ amount) (hfund : fund ≠ .delegatedVestingShares) :
    h.Spared (h.credit fund amount) := by
  refine ⟨fun f hown => ?_, ?_, rfl, rfl⟩
  · rw [credit_funds]
    split
    · rename_i hf
      subst hf
      have := hamount hown
      omega
    · exact le_rfl
  · rw [credit_funds, if_neg (Ne.symm hfund)]

namespace Books

variable {b c : Books} {name : AccountName} {consents : Prop}

/-- The account of that name is still there, and nothing is taken from it unless it
consents. -/
def Spares (name : AccountName) (consents : Prop) (b c : Books) : Prop :=
  ∀ h, b.holders.find? name = some h →
    ∃ k, c.holders.find? name = some k ∧ (h.Spared k ∨ consents)

theorem Spares.trans {d : Books} (hc : b.Spares name consents c) (hd : c.Spares name consents d) :
    b.Spares name consents d := by
  intro h hb
  obtain ⟨k, hk, hspared⟩ := hc h hb
  obtain ⟨l, hl, hspared'⟩ := hd k hk
  refine ⟨l, hl, ?_⟩
  rcases hspared with hspared | hconsents
  · exact hspared'.imp hspared.trans id
  · exact .inr hconsents

theorem spares_of_find?_eq (h : c.holders.find? name = b.holders.find? name) :
    b.Spares name consents c :=
  fun holder hholder => ⟨holder, h.trans hholder, .inl (.refl holder)⟩

theorem Spares.refl (b : Books) : b.Spares name consents b := spares_of_find?_eq rfl

theorem spares_adjust {other : AccountName} {f : Holder → Holder}
    (hf : other = name → consents ∨ ∀ h : Holder, h.Spared (f h)) :
    b.Spares name consents (b.adjust other f) := by
  intro h hh
  by_cases hother : other = name
  · refine ⟨f h, ?_, (hf hother).symm.imp (fun hspared => hspared h) id⟩
    rw [find?_adjust, if_pos hother.symm, hh, Option.map_some]
  · refine ⟨h, ?_, .inl (.refl h)⟩
    rw [find?_adjust, if_neg (Ne.symm hother), hh]

theorem spares_credit {other : AccountName} {fund : Fund} {amount : Int}
    (hfund : fund ≠ .delegatedVestingShares) (hamount : fund.isOwn → 0 ≤ amount) :
    b.Spares name consents (b.credit other fund amount) :=
  spares_adjust fun _ => .inr fun h => h.spared_credit hamount hfund

/-- What another account loses, or one that consents. -/
theorem spares_credit_of {other : AccountName} (hother : other = name → consents) (fund : Fund)
    (amount : Int) : b.Spares name consents (b.credit other fund amount) :=
  spares_adjust fun h => .inl (hother h)

/-- Votes are not funds. -/
theorem spares_shiftVotes (account : AccountName) (delta : VoteDelta) (levels : Nat) :
    b.Spares name consents (b.shiftVotes account delta levels) := by
  intro h hh
  obtain ⟨votes, hvotes⟩ := find?_shiftVotes (b := b) name account delta levels
  rw [hh, Option.map_some] at hvotes
  exact ⟨_, hvotes, .inl ⟨fun _ _ => le_rfl, rfl, rfl, rfl⟩⟩

theorem spares_openAccount {other : AccountName} {auth : AccountAuthority}
    (hnew : b.holders.find? other = none) : b.Spares name consents (b.openAccount other auth) := by
  intro h hh
  refine ⟨h, ?_, .inl (.refl h)⟩
  have hne : name ≠ other := by
    rintro rfl
    rw [hnew] at hh
    cases hh
  simp only [openAccount]
  rw [Table.find?_set, if_neg hne, hh]

/-- An amount that leaves one account for another spares everybody else. -/
theorem spares_transfer {sender receiver : AccountName} {fund fund' : Fund} {amount : Int}
    (hfund : fund' ≠ .delegatedVestingShares) (hsender : sender = name → consents)
    (hamount : 0 ≤ amount) :
    b.Spares name consents ((b.credit sender fund (-amount)).credit receiver fund' amount) :=
  (spares_credit_of hsender _ _).trans (spares_credit hfund fun _ => hamount)

end Books

/-- The account claimed its own rewards: what left its reward balances is in its balance
and its shares. -/
structure Holder.ClaimedRewards (h k : Holder) : Prop where
  liquid : k.funds .balance - h.funds .balance =
    h.funds .rewardBlurtBalance - k.funds .rewardBlurtBalance
  shares : k.funds .vestingShares - h.funds .vestingShares =
    h.funds .rewardVestingBalance - k.funds .rewardVestingBalance
  grows : h.funds .balance ≤ k.funds .balance ∧ h.funds .vestingShares ≤ k.funds .vestingShares
  savings : k.funds .savingsBalance = h.funds .savingsBalance
  delegated : k.funds .delegatedVestingShares = h.funds .delegatedVestingShares
  powerDown : k.powerDown = h.powerDown
  proxy : k.proxy = h.proxy

/-- The account paid `fee` from its balance, and nothing else. -/
structure Holder.PaidFee (fee : Int) (h k : Holder) : Prop where
  balance : k.funds .balance = h.funds .balance - fee
  funds : ∀ fund, fund ≠ .balance → k.funds fund = h.funds fund
  powerDown : k.powerDown = h.powerDown
  proxy : k.proxy = h.proxy

namespace Database

/-- No escrow holds a negative amount. -/
def EscrowsNonneg (db : Database) : Prop :=
  ∀ key e, db.escrows.find? key = some e → 0 ≤ e.blurtBalance.amount ∧ 0 ≤ e.pendingFee.amount

variable {db db' : Database} {name : AccountName} {consents : Prop}

theorem fund_ne_delegated (amount : Asset) : Asset.fund amount ≠ .delegatedVestingShares := by
  unfold Asset.fund
  split <;> decide

theorem escrowApprove_spares {o : EscrowApproveOperation} (hescrows : db.EscrowsNonneg)
    (h : db.escrowApprove o = .ok db') : db.books.Spares name consents db'.books := by
  obtain ⟨escrow, approved, hfound, -, hcases⟩ := escrowApprove_books h
  rw [find?_escrows] at hfound
  obtain ⟨hbalance, hfee⟩ := hescrows _ _ hfound
  rcases hcases with ⟨-, -, -, hbooks⟩ | ⟨-, -, -, -, hbooks⟩ | ⟨-, -, hbooks⟩
  · rw [hbooks]
    exact (Books.spares_credit (fund_ne_delegated _) fun _ => hbalance).trans
      (Books.spares_credit (fund_ne_delegated _) fun _ => hfee)
  · rw [hbooks]
    exact Books.spares_credit (fund_ne_delegated _) fun _ => hfee
  · rw [hbooks]
    exact .refl _

theorem escrowRelease_spares {o : EscrowReleaseOperation} (hvalid : o.validate = .ok ())
    (h : db.escrowRelease o = .ok db') : db.books.Spares name consents db'.books := by
  simp only [EscrowReleaseOperation.validate, Outcome.bind_eq_ok, Outcome.ensure_eq_ok] at hvalid
  obtain ⟨_, -, _, -, _, -, _, -, _, -, _, -, _, -, _, hpositive, -⟩ := hvalid
  obtain ⟨e, -, -, -, -, -, hbooks⟩ := escrowRelease_books h
  have hspares : db.books.Spares name consents (db.books.credit o.receiver (Asset.fund o.blurtAmount)
      o.blurtAmount.amount) :=
    Books.spares_credit (fund_ne_delegated _) fun _ => hpositive.le
  rw [hbooks]
  split <;> exact hspares

theorem delegateVestingShares_spares {o : DelegateVestingSharesOperation}
    (hdelegator : o.delegator = name → consents)
    (h : db.delegateVestingShares o = .ok db') : db.books.Spares name consents db'.books := by
  have hreceived : ∀ (b : Books) amount, b.Spares name consents
      (b.credit o.delegatee .receivedVestingShares amount) := fun b amount =>
    Books.spares_credit (by decide) fun hown => absurd hown (by decide)
  obtain ⟨delegator, updated, -, -, hcases⟩ := delegateVestingShares_books h
  rcases hcases with ⟨-, -, hbooks⟩ | ⟨old, -, ⟨-, -, hbooks⟩ | ⟨-, hbooks⟩⟩
  · rw [hbooks]
    exact (Books.spares_credit_of (b := db.books.setDelegation _ _) hdelegator _ _).trans (hreceived _ _)
  · rw [hbooks]
    exact (Books.spares_credit_of hdelegator _ _).trans (hreceived _ _)
  · rw [hbooks]
    split <;> exact hreceived _ _

theorem claimRewardBalance_spares {o : ClaimRewardBalanceOperation}
    (haccount : o.account = name → consents)
    (h : db.claimRewardBalance o = .ok db') : db.books.Spares name consents db'.books := by
  obtain ⟨moved, -, hbooks⟩ := claimRewardBalance_books h
  rw [hbooks]
  apply Books.Spares.trans _ (Books.spares_shiftVotes _ _ _)
  have hcredit := fun (b : Books) => Books.spares_credit_of (b := b) haccount
  exact ((((hcredit _ _ _).trans (hcredit _ _ _)).trans (hcredit _ _ _)).trans
    (hcredit _ _ _)).trans (hcredit _ _ _)

theorem claimRewardBalance_claimed {o : ClaimRewardBalanceOperation} (hvalid : o.validate = .ok ())
    (h : db.claimRewardBalance o = .ok db') {k : Holder}
    (hk : db.books.holders.find? o.account = some k) :
    ∃ l, db'.books.holders.find? o.account = some l ∧ k.ClaimedRewards l := by
  simp only [ClaimRewardBalanceOperation.validate, Outcome.bind_eq_ok,
    Outcome.ensure_eq_ok] at hvalid
  obtain ⟨_, -, _, -, _, -, _, hliquid, _, hshares, -⟩ := hvalid
  obtain ⟨moved, -, hbooks⟩ := claimRewardBalance_books h
  rw [hbooks]
  obtain ⟨votes, hvotes⟩ := Books.find?_shiftVotes o.account o.account
    (.single o.rewardVests.amount) blurtMaxProxyRecursionDepth
  refine ⟨_, hvotes.trans (by simp [Books.setTotals, Books.credit, Books.find?_adjust, hk]; rfl), ?_⟩
  constructor <;> (simp [Holder.credit]; try omega)

theorem exists_spared (h : db.books.Spares name consents db'.books) {a : Account}
    (ha : db.accounts.find? name = some a) :
    ∃ b, db'.accounts.find? name = some b ∧ (a.Spared b ∨ consents) := by
  obtain ⟨k, hk, hspared⟩ := h a.holder (by rw [find?_holders, ha, Option.map_some])
  rw [find?_holders, Option.map_eq_some_iff] at hk
  obtain ⟨b, hb, rfl⟩ := hk
  exact ⟨b, hb, hspared⟩

/-- An operation that is no claim of rewards and no change of the properties of a witness
spares everybody whose owner or active authority it does not require. -/
theorem applyOperation_spares {rules : TextRules} {host : Host} {op : Operation}
    (hvalid : op.validate rules = .ok ()) (hescrows : db.EscrowsNonneg)
    (happly : applyOperation host db op = .ok db') (hclaim : ∀ o, op ≠ .claimRewardBalance o)
    (hprops : ∀ o, op ≠ .witnessSetProperties o) :
    db.books.Spares name (name ∈ op.requiredOwner ∨ name ∈ op.requiredActive) db'.books := by
  have hquiet : db'.books = db.books → db.books.Spares name
      (name ∈ op.requiredOwner ∨ name ∈ op.requiredActive) db'.books := fun h => by
    rw [h]
    exact .refl _
  -- the accounts that an operation requires are the payers of its evaluator
  cases op with
  | vote o => exact hquiet (vote_books happly)
  | comment o => exact hquiet (comment_books happly)
  | transfer o =>
      simp only [Operation.validate, TransferOperation.validate, Outcome.bind_eq_ok,
        Outcome.ensure_eq_ok] at hvalid
      obtain ⟨_, -, _, -, _, -, _, hpositive, -⟩ := hvalid
      rw [transfer_books happly]
      apply Books.spares_transfer (by decide) _ hpositive.le
      exact fun h => .inr (by simp [Operation.requiredActive, h])
  | transferToVesting o =>
      obtain ⟨newVesting, hnonneg, -, hbooks⟩ := transferToVesting_books happly
      rw [hbooks]
      apply Books.Spares.trans _ (Books.spares_shiftVotes _ _ _)
      apply Books.Spares.trans (Books.spares_credit_of _ _ _)
        (Books.spares_credit (by decide) fun _ => hnonneg)
      exact fun h => .inr (by simp [Operation.requiredActive, h])
  | withdrawVesting o =>
      obtain ⟨account, -, -, -, hbooks⟩ := withdrawVesting_books happly
      rw [hbooks]
      apply Books.spares_adjust
      exact fun h => .inl (.inr (by simp [Operation.requiredActive, h]))
  | accountCreate o =>
      simp only [Operation.validate, AccountCreateOperation.validate, validateCreationFee,
        Outcome.bind_eq_ok, Outcome.ensure_eq_ok] at hvalid
      obtain ⟨_, -, _, hblurt, _, -, _, -, _, -, _, -, _, -, _, -, _, -, _, hnonneg, -⟩ := hvalid
      obtain ⟨hnew, hbooks⟩ := accountCreate_books hblurt happly
      rw [hbooks]
      apply Books.Spares.trans _ (Books.spares_openAccount hnew)
      apply Books.spares_transfer (by decide) _ hnonneg
      exact fun h => .inr (by simp [Operation.requiredActive, h])
  | accountUpdate o =>
      obtain ⟨owned, auth, howned, hbooks⟩ := accountUpdate_books happly
      rw [hbooks]
      rcases howned with rfl | ⟨previous, updated, rfl⟩ <;> exact Books.spares_of_find?_eq rfl
  | witnessUpdate o =>
      rw [witnessUpdate_books happly]
      exact Books.spares_of_find?_eq rfl
  | accountWitnessVote o =>
      obtain ⟨voter, -, -, -, ⟨-, -, -, hbooks⟩ | ⟨-, -, hbooks⟩⟩ := accountWitnessVote_books happly
      all_goals
        rw [hbooks]
        exact Books.spares_of_find?_eq rfl
  | accountWitnessProxy o =>
      have hproxy : ∀ b : Books, b.Spares name
          (name ∈ (Operation.accountWitnessProxy o).requiredOwner ∨
            name ∈ (Operation.accountWitnessProxy o).requiredActive)
          (b.setProxy o.account o.proxy) := fun b =>
        Books.spares_adjust fun h => .inl (.inr (by simp [Operation.requiredActive, h]))
      obtain ⟨account, -, -, -, ⟨-, -, hbooks⟩ | ⟨-, hbooks⟩⟩ := accountWitnessProxy_books happly
      · rw [hbooks]
        exact ((Books.spares_shiftVotes _ _ _).trans (hproxy (Books.clearVotes _ _))).trans
          (Books.spares_shiftVotes _ _ _)
      · rw [hbooks]
        exact (Books.spares_shiftVotes _ _ _).trans (hproxy _)
  | custom o =>
      simp only [applyOperation, custom, Outcome.bind_eq_ok, Outcome.ensure_eq_ok,
        Outcome.pure_eq_ok] at happly
      obtain ⟨_, -, _, -, rfl⟩ := happly
      exact .refl _
  | deleteComment o => exact hquiet (deleteComment_books happly)
  | customJson o =>
      simp only [applyOperation, customJson, Outcome.bind_eq_ok, Outcome.ensure_eq_ok,
        Outcome.pure_eq_ok] at happly
      obtain ⟨_, -, _, -, rfl⟩ := happly
      exact .refl _
  | commentOptions o => exact hquiet (commentOptions_books happly)
  | setWithdrawVestingRoute o => exact hquiet (setWithdrawVestingRoute_books happly)
  | claimAccount o =>
      simp only [Operation.validate, ClaimAccountOperation.validate, validateCreationFee,
        Outcome.bind_eq_ok, Outcome.ensure_eq_ok] at hvalid
      obtain ⟨_, -, _, ⟨_, -, _, hnonneg, -⟩, -⟩ := hvalid
      rw [(claimAccount_books happly).2]
      apply Books.Spares.trans (c := db.books.credit blurtNullAccount .balance o.fee.amount)
      · exact Books.spares_credit (by decide) fun _ => hnonneg
      apply Books.spares_credit_of
      exact fun h => .inr (by simp [Operation.requiredActive, h])
  | createClaimedAccount o =>
      obtain ⟨hnew, hbooks⟩ := createClaimedAccount_books happly
      rw [hbooks]
      exact Books.spares_openAccount hnew
  | requestAccountRecovery o => exact hquiet (requestAccountRecovery_books happly)
  | recoverAccount o =>
      obtain ⟨-, auth, -, hbooks⟩ := recoverAccount_books happly
      rw [hbooks]
      exact Books.spares_of_find?_eq rfl
  | changeRecoveryAccount o => exact hquiet (changeRecoveryAccount_books happly)
  | escrowTransfer o =>
      simp only [Operation.validate, EscrowTransferOperation.validate, Outcome.bind_eq_ok,
        Outcome.ensure_eq_ok] at hvalid
      obtain ⟨_, -, _, -, _, -, _, -, _, -, _, -, _, hfee, -⟩ := hvalid
      obtain ⟨-, -, hbooks⟩ := escrowTransfer_books hfee happly
      rw [hbooks]
      apply Books.spares_credit_of
      exact fun h => .inr (by simp [Operation.requiredActive, h])
  | escrowDispute o =>
      obtain ⟨e, -, hbooks⟩ := escrowDispute_books happly
      rw [hbooks]
      exact Books.spares_of_find?_eq rfl
  | escrowRelease o => exact escrowRelease_spares hvalid happly
  | escrowApprove o => exact escrowApprove_spares hescrows happly
  | transferToSavings o =>
      simp only [Operation.validate, TransferToSavingsOperation.validate, Outcome.bind_eq_ok,
        Outcome.ensure_eq_ok] at hvalid
      obtain ⟨_, -, _, -, _, hpositive, _, hblurt, -⟩ := hvalid
      rw [transferToSavings_books hblurt happly]
      apply Books.spares_transfer (by decide) _ hpositive.le
      exact fun h => .inr (by simp [Operation.requiredActive, h])
  | transferFromSavings o =>
      obtain ⟨-, -, hbooks⟩ := transferFromSavings_books happly
      rw [hbooks]
      apply Books.spares_credit_of
      exact fun h => .inr (by simp [Operation.requiredActive, h])
  | cancelTransferFromSavings o =>
      obtain ⟨swo, -, -, hbooks⟩ := cancelTransferFromSavings_books happly
      rw [hbooks]
      apply Books.spares_credit_of
      exact fun h => .inr (by simp [Operation.requiredActive, h])
  | customBinary o =>
      simp only [applyOperation, customBinary, Outcome.bind_eq_ok, Outcome.ensure_eq_ok,
        Outcome.pure_eq_ok] at happly
      obtain ⟨_, -, _, -, rfl⟩ := happly
      exact .refl _
  | declineVotingRights o => exact hquiet (declineVotingRights_books happly)
  | resetAccount o => cases happly
  | setResetAccount o => cases happly
  | claimRewardBalance o => exact absurd rfl (hclaim o)
  | delegateVestingShares o =>
      apply delegateVestingShares_spares _ happly
      exact fun h => .inr (by simp [Operation.requiredActive, h])
  | witnessSetProperties o => exact absurd rfl (hprops o)
  | createProposal o =>
      rw [createProposal_books happly]
      apply Books.spares_transfer (by decide) _ (by decide)
      exact fun h => .inr (by simp [Operation.requiredActive, h])
  | updateProposalVotes o =>
      cases happly
      exact hquiet (updateProposalVotes_books db o)
  | removeProposal o => exact hquiet (removeProposal_books happly)

/-- The fee for new properties of a witness is taken from its balance. -/
theorem witnessSetProperties_paid {host : Host} {o : WitnessSetPropertiesOperation}
    (h : witnessSetProperties host db o = .ok db') {a : Account}
    (ha : db.accounts.find? name = some a) :
    ∃ b, db'.accounts.find? name = some b ∧
      (a.Spared b ∨ name = o.owner ∧ a.holder.PaidFee (setPropertiesFee host db o) b.holder) := by
  have hfee := setPropertiesFee_pos host db o
  have hquiet : db.books.Spares name False db'.books → ∃ b, db'.accounts.find? name = some b ∧
      (a.Spared b ∨
        name = o.owner ∧ a.holder.PaidFee (setPropertiesFee host db o) b.holder) := fun hspares => by
    obtain ⟨b, hb, hspared⟩ := exists_spared hspares ha
    exact ⟨b, hb, .inl (hspared.resolve_right id)⟩
  obtain ⟨-, hbooks | hbooks⟩ := witnessSetProperties_books h
  · apply hquiet
    rw [hbooks]
    exact .refl _
  · by_cases howner : name = o.owner
    · subst howner
      have hholder := find?_holders db' o.owner
      rw [hbooks, Books.credit, Books.credit, Books.find?_adjust, Books.find?_adjust,
        find?_holders, ha] at hholder
      by_cases hreceiver : o.owner = db.feeAccount
      · -- the witness owner receives the fee it pays
        rw [if_pos hreceiver, if_pos rfl, Option.map_some, Option.map_some, Option.map_some] at hholder
        obtain ⟨b, hb, hbholder⟩ := Option.map_eq_some_iff.mp hholder.symm
        refine ⟨b, hb, .inl ⟨fun fund _ => ?_, ?_, ?_, ?_⟩⟩
        all_goals rw [hbholder]
        · simp only [Holder.credit]
          split <;> omega
        · rfl
        · rfl
        · rfl
      · rw [if_neg hreceiver, if_pos rfl, Option.map_some, Option.map_some] at hholder
        obtain ⟨b, hb, hbholder⟩ := Option.map_eq_some_iff.mp hholder.symm
        refine ⟨b, hb, .inr ⟨rfl, ?_, fun fund hfund => ?_, ?_, ?_⟩⟩
        all_goals rw [hbholder]
        · rfl
        · rw [Holder.credit_funds, if_neg hfund]
        · rfl
        · rfl
    · apply hquiet
      rw [hbooks]
      exact Books.spares_transfer (by decide) (fun h => howner h.symm) hfee.le

/-- Funds move only with authority. -/
theorem applyOperation_consent {rules : TextRules} {host : Host} {op : Operation}
    (hvalid : op.validate rules = .ok ()) (hescrows : db.EscrowsNonneg)
    (happly : applyOperation host db op = .ok db') {a : Account}
    (ha : db.accounts.find? name = some a) :
    ∃ b, db'.accounts.find? name = some b ∧
      (a.Spared b ∨ name ∈ op.requiredOwner ∨ name ∈ op.requiredActive ∨
        (∃ o, op = .claimRewardBalance o ∧ name = o.account ∧ name ∈ op.requiredPosting ∧
          a.holder.ClaimedRewards b.holder) ∨
        ∃ o witness, op = .witnessSetProperties o ∧ name = o.owner ∧
          db.witnesses.find? o.owner = some witness ∧
          op.requiredAuthorities =
            [{ weightThreshold := 1, keyAuths := [(witness.signingKey, 1)] }] ∧
          a.holder.PaidFee (setPropertiesFee host db o) b.holder) := by
  by_cases hclaim : ∃ o, op = .claimRewardBalance o
  · obtain ⟨o, rfl⟩ := hclaim
    by_cases hname : o.account = name
    · subst hname
      obtain ⟨l, hl, hclaimed⟩ := claimRewardBalance_claimed hvalid happly
        (k := a.holder) (by rw [find?_holders, ha, Option.map_some])
      rw [find?_holders, Option.map_eq_some_iff] at hl
      obtain ⟨b, hb, rfl⟩ := hl
      exact ⟨b, hb, .inr (.inr (.inr (.inl
        ⟨o, rfl, rfl, by simp [Operation.requiredPosting], hclaimed⟩)))⟩
    · obtain ⟨b, hb, hspared⟩ := exists_spared (claimRewardBalance_spares hname happly) ha
      exact ⟨b, hb, .inl (hspared.resolve_right id)⟩
  · by_cases hprops : ∃ o, op = .witnessSetProperties o
    · obtain ⟨o, rfl⟩ := hprops
      obtain ⟨⟨witness, hwitness, hkey⟩, -⟩ := witnessSetProperties_books happly
      obtain ⟨b, hb, hspared | ⟨rfl, hpaid⟩⟩ := witnessSetProperties_paid happly ha
      · exact ⟨b, hb, .inl hspared⟩
      · refine ⟨b, hb, .inr (.inr (.inr (.inr ⟨o, witness, rfl, rfl, hwitness, ?_, hpaid⟩)))⟩
        simp only [Operation.requiredAuthorities, hkey]
    · obtain ⟨b, hb, hspared⟩ := exists_spared (applyOperation_spares hvalid hescrows happly
        (fun o h => hclaim ⟨o, h⟩) fun o h => hprops ⟨o, h⟩) ha
      exact ⟨b, hb, hspared.imp_right (Or.imp_right .inl ·)⟩

end Database

namespace Sample

open Database

/-- `alice` and `bob`, with 10 in the balance of `alice`. -/
def twoAccounts : Store AccountName Account :=
  ((∅ : Store AccountName Account).set "alice" { id := 0, balance := 10 }).set "bob" { id := 1 }

/-- A state with one escrow of `alice` for `bob`, which holds `amount`. -/
def escrowState (amount : Int) : Database where
  dgp := { time := 1000, currentWitness := "initminer" }
  processedHardforks := [0]
  accounts := twoAccounts
  escrows := (∅ : Store (AccountName × Nat) Escrow).set ("alice", 1)
    { id := 0
      toAccount := "bob"
      agent := "carol"
      ratificationDeadline := 2000
      escrowExpiration := 3000
      blurtBalance := .blurt amount
      pendingFee := .blurt 0 }

/-- A node that accepts every text. -/
def plainHost : Host where
  rules := { isUtf8 := fun _ => true, isValidJson := fun _ => true }
  isProducing := false
  isPendingTx := false
  packSize := fun _ => 0
  spsRemoveThreshold := 200

def bobRejects : Operation :=
  .escrowApprove
    { fromAccount := "alice"
      toAccount := "bob"
      agent := "carol"
      who := "bob"
      escrowId := 1
      approve := false }

def alicePays : Operation :=
  .transfer { fromAccount := "alice", toAccount := "bob", amount := .blurt 3, memo := "" }

/-- `bob` is spared by the payment that he receives. -/
theorem alicePays_spares_bob :
    ∃ db' b, applyOperation plainHost (escrowState 5) alicePays = .ok db' ∧
      db'.accounts.find? "bob" = some b ∧ Account.Spared { id := 1 } b := by
  have hescrows : (escrowState 5).EscrowsNonneg := by
    intro key e he
    have hkey : key = ("alice", 1) := by
      by_contra hne
      rw [escrowState, Store.find?_set_of_ne hne] at he
      cases he
    subst hkey
    cases he
    decide
  obtain ⟨b, hb, hspared | howner | hactive | ⟨o, ho, -⟩ | ⟨o, _, ho, -⟩⟩ :=
    @applyOperation_consent (escrowState 5) _ "bob" plainHost.rules plainHost alicePays rfl hescrows
      rfl { id := 1 } rfl
  · exact ⟨_, b, rfl, hb, hspared⟩
  · exact absurd howner (by decide)
  · exact absurd hactive (by decide)
  · cases ho
  · cases ho

/-- A rejection refunds whatever the escrow holds: where that is negative, the account
that opened the escrow pays and is not asked. -/
theorem bobRejects_takes_from_alice :
    ∃ db' a b, bobRejects.validate plainHost.rules = .ok () ∧
      applyOperation plainHost (escrowState (-5)) bobRejects = .ok db' ∧
      (escrowState (-5)).accounts.find? "alice" = some a ∧ db'.accounts.find? "alice" = some b ∧
      b.balance < a.balance ∧ "alice" ∉ bobRejects.requiredOwner ∧
      "alice" ∉ bobRejects.requiredActive ∧ (∀ o, bobRejects ≠ .claimRewardBalance o) ∧
      ∀ o, bobRejects ≠ .witnessSetProperties o := by
  refine ⟨_, _, _, rfl, rfl, rfl, rfl, by decide, by decide, by decide, ?_, ?_⟩ <;>
    · intro o ho
      cases ho

end Sample

end Ledger

end Blurt
