import Blurt.Ledger.AccountBooks
import Blurt.Ledger.CommentBooks
import Blurt.Ledger.GovernanceBooks
import Blurt.Ledger.Transaction
import Blurt.Ledger.VestingRuns

/-! # Operations as runs of entries

An accepted operation is a run of entries that balances, if nobody acts for the null
account.
-/

namespace Blurt

namespace Ledger

namespace Database

variable {may : AccountName → Prop} {db db' : Database} {name : AccountName} {host : Host}

/-! ## Accounts -/

theorem accountCreate_enters {o : AccountCreateOperation} (hblurt : o.fee.symbol = .blurt)
    (h : db.accountCreate o = .ok db') : Enters may db 0 db' := by
  simp only [accountCreate, Outcome.bind_eq_ok, Outcome.ensure_eq_ok] at h
  obtain ⟨_, -, _, -, _, -, _, -, _, -, debited, hdebited, burned, hburned, h⟩ := h
  obtain ⟨hnew, hbooks⟩ := createAccount_books h
  have hpaid : Enters may db 0 burned :=
    .move (adjustBalance_entry may hdebited hblurt) (adjustBalance_entry may hburned hblurt) rfl
  rw [Enters, hbooks]
  exact (hpaid.tail (.openAccount hnew)).relabel (add_zero _)

/-- The creator pays before the null account is credited, as far as the books can tell. -/
theorem claimAccount_enters {o : ClaimAccountOperation} (hnonneg : 0 ≤ o.fee.amount)
    (h : claimAccount host db o = .ok db') : Enters may db 0 db' := by
  obtain ⟨hnull, hbooks⟩ := claimAccount_books h
  simp only [claimAccount, Outcome.bind_eq_ok, Outcome.ensure_eq_ok, getAccount_eq_ok] at h
  obtain ⟨_, -, creator, hcreator, _, -, _, hfunds, -⟩ := h
  have hsafe : 0 ≤ creator.holder.funds .balance + -o.fee.amount := by
    rw [Account.holder_funds, Account.funds]
    omega
  have hpay : Books.Step may db.books _ (db.books.credit o.creator .balance (-o.fee.amount)) :=
    .credit (find?_holders_some hcreator) rfl (.inr hsafe)
  have hexist : ((db.books.credit o.creator .balance (-o.fee.amount)).holders.find?
      blurtNullAccount).isSome := by
    rwa [Books.credit, Books.isSome_adjust]
  obtain ⟨null', hnull'⟩ := Option.isSome_iff_exists.mp hexist
  have hburn : Books.Step may _ _ ((db.books.credit o.creator .balance (-o.fee.amount)).credit
      blurtNullAccount .balance o.fee.amount) :=
    .credit hnull' rfl (.inl hnonneg)
  rw [Enters, hbooks, Books.credit_comm]
  refine ((Run.single hpay).tail hburn).relabel ?_
  rw [Drift.of_add]
  simp

theorem createClaimedAccount_enters {o : CreateClaimedAccountOperation}
    (h : db.createClaimedAccount o = .ok db') : Enters may db 0 db' := by
  obtain ⟨hnew, hbooks⟩ := createClaimedAccount_books h
  rw [Enters, hbooks]
  exact Run.single (.openAccount hnew)

theorem accountUpdate_enters {o : AccountUpdateOperation} (hnull : o.account ≠ blurtNullAccount)
    (h : db.accountUpdate o = .ok db') : Enters may db 0 db' := by
  obtain ⟨owned, auth, howned, hbooks⟩ := accountUpdate_books h
  have hrun : Run (Books.Step may) db.books 0 owned := by
    rcases howned with rfl | ⟨previous, updated, rfl⟩
    · exact Run.refl _
    · exact ((Run.single (.recordOwner hnull)).tail (.setAuthority hnull)).relabel (add_zero _)
  rw [Enters, hbooks]
  exact (hrun.tail (.setAuthority hnull)).relabel (add_zero _)

/-- Nothing of the null account is in the history of owners, so it is not recovered. -/
theorem recoverAccount_enters {o : RecoverAccountOperation} (hb : db.books.Sound)
    (h : db.recoverAccount o = .ok db') : Enters may db 0 db' := by
  obtain ⟨⟨id, hist, hhist, haccount, -⟩, auth, -, hbooks⟩ := recoverAccount_books h
  have hnull : o.accountToRecover ≠ blurtNullAccount := by
    rw [← haccount]
    exact hb.null.papers.history id hist hhist
  rw [Enters, hbooks]
  exact ((Run.single (.recordOwner hnull)).tail (.setAuthority hnull)).relabel (add_zero _)

/-! ## Witnesses -/

theorem payFee_enters {payer : AccountName} {fee : Int} (h : db.payFee payer fee = .ok db') :
    Enters may db 0 db' := by
  simp only [payFee, Outcome.bind_eq_ok, Outcome.ensure_eq_ok] at h
  obtain ⟨_, -, _, -, debited, hdebited, h⟩ := h
  exact .move (adjustBalance_entry may hdebited rfl) (adjustBalance_entry may h rfl) rfl

theorem witnessUpdate_enters {o : WitnessUpdateOperation} (h : db.witnessUpdate o = .ok db') :
    Enters may db 0 db' := by
  rw [Enters, witnessUpdate_books h]
  exact Run.single .register

theorem witnessSetProperties_enters {o : WitnessSetPropertiesOperation}
    (h : witnessSetProperties host db o = .ok db') : Enters may db 0 db' := by
  simp only [witnessSetProperties, getWitness, ensureEntry, Outcome.bind_eq_ok, Outcome.ensure_eq_ok,
    Outcome.require_eq_ok] at h
  obtain ⟨witness, hwitness, _, -, _, -, _, -, _, -, h⟩ := h
  have hquiet := books_setWitness_quiet db (Witness.setProperties witness o.props) hwitness rfl
  split at h
  · simp only [Outcome.bind_eq_ok] at h
    obtain ⟨fee, -, h⟩ := h
    have hpaid : Enters may _ 0 db' := payFee_enters h
    rwa [Enters, hquiet] at hpaid
  · cases h
    exact .of_eq hquiet

theorem accountWitnessVote_enters {o : AccountWitnessVoteOperation}
    (hnull : o.account ≠ blurtNullAccount) (h : db.accountWitnessVote o = .ok db') :
    Enters may db 0 db' := by
  obtain ⟨voter, hvoter, hproxy, hwitness, hcases⟩ := accountWitnessVote_books h
  have hholder := find?_holders_some hvoter
  have hweight : db.voteWeight o.account voter = db.books.voteWeight o.account voter.holder := rfl
  obtain ⟨w, hw⟩ := Option.isSome_iff_exists.mp hwitness
  have hvotes : db.books.witnesses.find? o.witness = some w.votes := by
    simp [books, hw]
  rw [Enters]
  rcases hcases with ⟨-, hcanVote, hnew, hbooks⟩ | ⟨-, hold, hbooks⟩
  · rw [hbooks, hweight]
    exact Run.single (.castVote hholder hproxy hcanVote hvotes hnew hnull)
  · obtain ⟨⟨⟩, hold⟩ := Option.isSome_iff_exists.mp hold
    rw [hbooks, hweight]
    exact Run.single (.retractVote hholder hproxy hold)

/-! ## Proxies -/

/-- A chain of proxies that passes the check avoids the accounts that it is checked against. -/
theorem checkProxyChain_avoids {chain : List AccountName} {current : AccountName} {turns : Nat}
    (h : db.checkProxyChain chain current turns = .ok ()) (hname : name ∈ chain)
    (hcurrent : current ≠ name) (n : Nat) : Links.climb db.books.link n current ≠ some name := by
  induction turns generalizing chain current n with
  | zero => cases h
  | succ turns ih =>
      cases n with
      | zero =>
          rw [Links.climb_zero]
          simpa using hcurrent
      | succ n =>
          simp only [checkProxyChain, Outcome.bind_eq_ok, getAccount_eq_ok] at h
          obtain ⟨cprox, hcprox, h⟩ := h
          have hlink := Books.link_of_found (find?_holders_some hcprox)
          rw [Account.holder_proxy] at hlink
          split at h
          · rename_i hproxy
            simp only [Outcome.bind_eq_ok, Outcome.ensure_eq_ok] at h
            obtain ⟨_, -, _, hfresh, _, -, h⟩ := h
            rw [if_neg hproxy] at hlink
            rw [Links.climb_of_link hlink]
            exact ih h (List.mem_cons_of_mem _ hname) (fun heq => hfresh (heq ▸ hname)) n
          · rename_i hself
            rw [if_pos (not_not.mp hself)] at hlink
            rw [Links.climb_of_root hlink]
            exact (Option.some_ne_none _).symm

theorem accountWitnessProxy_enters {o : AccountWitnessProxyOperation} (hmay : may o.account)
    (hnull : o.account ≠ blurtNullAccount) (hother : o.proxy ≠ o.account)
    (h : db.accountWitnessProxy o = .ok db') : Enters may db 0 db' := by
  obtain ⟨account, haccount, hchange, hcanVote, hcases⟩ := accountWitnessProxy_books h
  have hholder := find?_holders_some haccount
  have hdelta : account.voteDelta = account.holder.voteDelta := account.holder_voteDelta.symm
  rw [Enters]
  rcases hcases with ⟨hproxy, ⟨withdrawn, hwithdrawn, hexists, hchain⟩, hbooks⟩ | ⟨hself, hbooks⟩
  · have hk : (db.books.holders.find? o.proxy).isSome := by
      rw [← Books.isSome_shiftVotes o.account (fun i => -account.voteDelta i)
        blurtMaxProxyRecursionDepth, ← hwithdrawn, find?_holders, Option.isSome_map]
      exact hexists
    obtain ⟨k, hk⟩ := Option.isSome_iff_exists.mp hk
    have havoids : ∀ n, Links.climb db.books.link n o.proxy ≠ some o.account := by
      intro n
      have hlink : withdrawn.books.link = db.books.link := by
        rw [hwithdrawn, Books.link_shiftVotes]
      rw [← hlink]
      exact checkProxyChain_avoids hchain (by simp) hother n
    rw [hbooks, hdelta]
    exact Run.single (.setProxy hmay hholder hk hproxy hcanVote havoids hnull)
  · have hproxied : account.holder.proxy ≠ blurtProxyToSelfAccount := by
      rw [hself] at hchange
      exact hchange
    rw [hbooks, hdelta, hself]
    exact Run.single (.clearProxy hholder hproxied)

theorem createProposal_enters {o : CreateProposalOperation} (h : db.createProposal o = .ok db') :
    Enters may db 0 db' := by
  simp only [createProposal, Outcome.bind_eq_ok, Outcome.ensure_eq_ok] at h
  obtain ⟨_, -, _, -, _, -, _, -, _, -, debited, hdebited, h⟩ := h
  have hmoved := Enters.move (adjustBalance_entry may hdebited rfl) (adjustBalance_entry may h rfl) rfl
  exact hmoved

/-! ## All operations -/

/-- An update of an account needs one of the authorities of the account. -/
theorem account_mem_required (o : AccountUpdateOperation) :
    o.account ∈ (Operation.accountUpdate o).required := by
  simp only [Operation.required, Operation.requiredActive, Operation.requiredOwner,
    Operation.requiredPosting, List.mem_append]
  cases o.owner with
  | some owner => simp
  | none =>
      by_cases hactive : o.active.isSome ∨ o.posting.isSome ∨ o.memoKey.isSome ∨
          0 < o.jsonMetadata.length
      · simp [hactive]
      · simp [hactive]

theorem proxy_ne_account {o : AccountWitnessProxyOperation} (h : o.validate = .ok ()) :
    o.proxy ≠ o.account := by
  simp only [AccountWitnessProxyOperation.validate, Outcome.bind_eq_ok] at h
  obtain ⟨_, -, h⟩ := h
  split at h
  · simp only [Outcome.bind_eq_ok, Outcome.ensure_eq_ok] at h
    obtain ⟨_, -, hother⟩ := h
    exact hother
  · simpa using h

/-- An accepted operation balances. -/
theorem applyOperation_enters {op : Operation} (hb : db.books.Sound)
    (hvalid : op.validate host.rules = .ok ())
    (hnull : blurtNullAccount ∉ op.required)
    (hmay : ∀ o, op = .accountWitnessProxy o → may o.account)
    (happly : applyOperation host db op = .ok db') : Enters may db 0 db' := by
  cases op with
  | vote o => exact .of_eq (vote_books happly)
  | comment o => exact .of_eq (comment_books happly)
  | transfer o => exact transfer_enters happly
  | transferToVesting o => exact transferToVesting_enters happly
  | withdrawVesting o =>
      apply withdrawVesting_enters hb _ happly
      intro hname
      exact hnull (by simp [Operation.required, Operation.requiredActive, hname])
  | accountCreate o =>
      simp only [Operation.validate, AccountCreateOperation.validate, Outcome.bind_eq_ok,
        Outcome.ensure_eq_ok] at hvalid
      obtain ⟨_, -, _, hblurt, -⟩ := hvalid
      exact accountCreate_enters hblurt happly
  | accountUpdate o =>
      apply accountUpdate_enters _ happly
      intro hname
      exact hnull (hname ▸ account_mem_required o)
  | witnessUpdate o => exact witnessUpdate_enters happly
  | accountWitnessVote o =>
      apply accountWitnessVote_enters _ happly
      intro hname
      exact hnull (by simp [Operation.required, Operation.requiredActive, hname])
  | accountWitnessProxy o =>
      refine accountWitnessProxy_enters (hmay o rfl) ?_ (proxy_ne_account hvalid) happly
      intro hname
      exact hnull (by simp [Operation.required, Operation.requiredActive, hname])
  | custom o =>
      simp only [applyOperation, custom, Outcome.bind_eq_ok, Outcome.ensure_eq_ok,
        Outcome.pure_eq_ok] at happly
      obtain ⟨_, -, _, -, rfl⟩ := happly
      exact .refl _
  | deleteComment o => exact .of_eq (deleteComment_books happly)
  | customJson o =>
      simp only [applyOperation, customJson, Outcome.bind_eq_ok, Outcome.ensure_eq_ok,
        Outcome.pure_eq_ok] at happly
      obtain ⟨_, -, _, -, rfl⟩ := happly
      exact .refl _
  | commentOptions o => exact .of_eq (commentOptions_books happly)
  | setWithdrawVestingRoute o => exact .of_eq (setWithdrawVestingRoute_books happly)
  | claimAccount o =>
      simp only [Operation.validate, ClaimAccountOperation.validate, validateCreationFee,
        Outcome.bind_eq_ok, Outcome.ensure_eq_ok] at hvalid
      obtain ⟨_, -, _, ⟨_, -, _, hnonneg, -⟩, -⟩ := hvalid
      exact claimAccount_enters hnonneg happly
  | createClaimedAccount o => exact createClaimedAccount_enters happly
  | requestAccountRecovery o => exact .of_eq (requestAccountRecovery_books happly)
  | recoverAccount o => exact recoverAccount_enters hb happly
  | changeRecoveryAccount o => exact .of_eq (changeRecoveryAccount_books happly)
  | escrowTransfer o =>
      simp only [Operation.validate, EscrowTransferOperation.validate, Outcome.bind_eq_ok,
        Outcome.ensure_eq_ok] at hvalid
      obtain ⟨_, -, _, -, _, -, _, hfee, _, hamount, _, -, _, hblurt, -⟩ := hvalid
      exact escrowTransfer_enters hblurt hfee hamount.le happly
  | escrowDispute o => exact escrowDispute_enters hb.papers happly
  | escrowRelease o => exact escrowRelease_enters hb.papers happly
  | escrowApprove o => exact escrowApprove_enters hb.papers happly
  | transferToSavings o =>
      simp only [Operation.validate, TransferToSavingsOperation.validate, Outcome.bind_eq_ok,
        Outcome.ensure_eq_ok] at hvalid
      obtain ⟨_, -, _, -, _, -, _, hblurt, -⟩ := hvalid
      exact transferToSavings_enters hblurt happly
  | transferFromSavings o =>
      simp only [Operation.validate, TransferFromSavingsOperation.validate, Outcome.bind_eq_ok,
        Outcome.ensure_eq_ok] at hvalid
      obtain ⟨_, -, _, -, _, hpositive, -⟩ := hvalid
      exact transferFromSavings_enters hpositive.le happly
  | cancelTransferFromSavings o => exact cancelTransferFromSavings_enters happly
  | customBinary o =>
      simp only [applyOperation, customBinary, Outcome.bind_eq_ok, Outcome.ensure_eq_ok,
        Outcome.pure_eq_ok] at happly
      obtain ⟨_, -, _, -, rfl⟩ := happly
      exact .refl _
  | declineVotingRights o => exact .of_eq (declineVotingRights_books happly)
  | resetAccount o => cases happly
  | setResetAccount o => cases happly
  | claimRewardBalance o =>
      simp only [Operation.validate, ClaimRewardBalanceOperation.validate, Outcome.bind_eq_ok,
        Outcome.ensure_eq_ok] at hvalid
      obtain ⟨_, -, _, -, _, -, _, hliquid, _, hshares, -⟩ := hvalid
      exact claimRewardBalance_enters hb.rewards hliquid hshares happly
  | delegateVestingShares o =>
      simp only [Operation.validate, DelegateVestingSharesOperation.validate, Outcome.bind_eq_ok,
        Outcome.ensure_eq_ok] at hvalid
      obtain ⟨_, -, _, -, _, hother, _, -, hnonneg⟩ := hvalid
      apply delegateVestingShares_enters hb _ hother hnonneg happly
      intro hname
      exact hnull (by simp [Operation.required, Operation.requiredActive, hname])
  | witnessSetProperties o => exact witnessSetProperties_enters happly
  | createProposal o => exact createProposal_enters happly
  | updateProposalVotes o =>
      cases happly
      exact .of_eq (updateProposalVotes_books db o)
  | removeProposal o => exact .of_eq (removeProposal_books happly)

end Database

end Ledger

end Blurt
